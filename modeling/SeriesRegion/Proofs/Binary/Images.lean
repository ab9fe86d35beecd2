import SeriesRegion.Proofs.Binary.Exact
import SeriesRegion.Proofs.MemTable.LastWrite

/-!
# Images of tables

The bytes of a table's image spell pairs of keys and values, at three levels one inside the other (`Image`).  They may stand
in any order, and a key may come again: what is read is the table that has what stands last under each key
(`Image.table`, `Image.Shows`).  What is written for a table is the one image of it whose keys ascend (`Image.of_table`), so
that a table and its written image determine each other (`Format.memTable_images`).
-/

namespace SeriesRegion.Binary

/-! ### Readers of other values -/

namespace Reader

variable {α β γ : Type}

theorem map_map (r : Reader α) (f : α → β) (g : β → γ) : (r.map f).map g = r.map (g ∘ f) := by
  funext bs
  simp only [map, bind]
  cases r bs <;> rfl

theorem bind_map (r : Reader α) (f : α → β) (k : β → Reader γ) : (r.map f).bind k = r.bind (k ∘ f) := by
  funext bs
  simp only [map, bind]
  cases r bs <;> rfl

theorem map_bind (r : Reader α) (k : α → Reader β) (f : β → γ) : (r.bind k).map f = r.bind fun a => (k a).map f := by
  funext bs
  simp only [map, bind]
  cases r bs <;> rfl

theorem replicate_map (r : Reader α) (f : α → β) (n : Nat) : (r.map f).replicate n = (r.replicate n).map (List.map f) := by
  induction n with
  | zero => rfl
  | succ n ih =>
    rw [replicate_succ, replicate_succ, bind_map, map_bind, ih]
    simp only [map_map]
    rfl

end Reader

namespace Format

variable {α β γ δ : Type}

/-- A layout has the bytes of another one, for other values: those that stand `there` for what the other one reads, and for
which the other one writes what stands `back`. -/
structure View (g : Format β) (f : Format α) (there : α → β) (back : β → α) : Prop where
  read : g.read = f.read.map there
  write : ∀ b, g.write b = f.write (back b)

theorem View.imap {g : Format β} {f : Format α} {there : α → β} {back : β → α} (h : g.View f there back)
    (there' : β → γ) (back' : γ → β) : (g.imap there' back').View f (there' ∘ there) (back ∘ back') where
  read := by
    show g.read.map there' = _
    rw [h.read, Reader.map_map]
  write c := h.write (back' c)

theorem View.pair_left {g : Format β} {f : Format α} {there : α → β} {back : β → α} (h : g.View f there back)
    (s : Format γ) : (g.pair s).View (f.pair s) (fun p => (there p.1, p.2)) (fun p => (back p.1, p.2)) where
  read := by
    simp only [Format.pair, h.read, Reader.bind_map, Reader.map_bind, Reader.map_map]
    rfl
  write p := by
    show g.write p.1 ++ _ = _
    rw [h.write]
    rfl

theorem View.pair_right {g : Format β} {f : Format α} {there : α → β} {back : β → α} (h : g.View f there back)
    (s : Format γ) : (s.pair g).View (s.pair f) (fun p => (p.1, there p.2)) (fun p => (p.1, back p.2)) where
  read := by
    simp only [Format.pair, h.read, Reader.map_bind, Reader.map_map]
    rfl
  write p := by
    show _ ++ g.write p.2 = _
    rw [h.write]
    rfl

theorem View.list {g : Format β} {f : Format α} {there : α → β} {back : β → α} (h : g.View f there back) :
    g.list.View f.list (List.map there) (List.map back) where
  read := by
    simp only [Format.list, Reader.map_bind, h.read]
    exact congrArg _ (funext (Reader.replicate_map f.read there))
  write bs := by
    have hwrite : g.write = f.write ∘ back := funext h.write
    simp only [Format.list, List.length_map, List.flatMap_map, hwrite]
    rfl

section Maps

variable {κ : Type} [Ord κ] [Std.TransOrd κ] [Std.LawfulEqOrd κ]

/-- A map has the bytes of the list of its pairs. -/
theorem map_view (k : Format κ) (v : Format α) : (map k v).View (k.pair v).list SortedMap.ofList SortedMap.entries :=
  ⟨rfl, fun _ => rfl⟩

theorem View.map {g : Format β} {f : Format α} {there : α → β} {back : β → α} (h : g.View f there back) (k : Format κ) :
    (map k g).View (k.pair f).list (fun l => .ofList (l.map fun p => (p.1, there p.2)))
      (fun m => m.entries.map fun p => (p.1, back p.2)) :=
  (h.pair_right k).list.imap SortedMap.ofList SortedMap.entries

end Maps

end Format

/-! ### Images -/

/-- The pairs that the bytes of a table's image spell, in the order in which they stand. -/
structure Image where
  devices : List (String × List (String × List (Int64 × Value)))
  maxSearchIndex : Option UInt64
  deriving DecidableEq, Repr

namespace Image

/-- The series of one device: under each key what stands last. -/
def gather (series : List (String × List (Int64 × Value))) : SortedMap String Series :=
  .ofList (series.map fun s => (s.1, .ofList s.2))

/-- The table of an image: under each key what stands last. -/
def table (i : Image) : MemTable := ⟨.ofList (i.devices.map fun d => (d.1, gather d.2)), i.maxSearchIndex⟩

/-- The pairs of the series of one device, by ascending key. -/
def spread (series : SortedMap String Series) : List (String × List (Int64 × Value)) :=
  series.entries.map fun s => (s.1, s.2.entries)

/-- The pairs of a table, by ascending key. -/
def of (t : MemTable) : Image := ⟨t.devices.entries.map fun d => (d.1, spread d.2), t.maxSearchIndex⟩

/-- What stands last under a device. -/
def device? (i : Image) (device : String) : Option (List (String × List (Int64 × Value))) :=
  i.devices.reverse.lookup device

/-- What stands last under a measurement, in what stands last under the device. -/
def series? (i : Image) (device measurement : String) : Option (List (Int64 × Value)) :=
  (i.device? device).bind fun series => series.reverse.lookup measurement

def value? (i : Image) (device measurement : String) (time : Int64) : Option Value :=
  (i.series? device measurement).bind fun points => points.reverse.lookup time

/-- A table has what stands last in an image, and nothing of what stands before under the same keys. -/
structure Shows (i : Image) (t : MemTable) : Prop where
  device : ∀ device, (t.devices.get? device).isSome = (i.device? device).isSome
  series : ∀ device measurement, (t.series? device measurement).isSome = (i.series? device measurement).isSome
  value : ∀ device measurement time, t.value? device measurement time = i.value? device measurement time
  index : t.maxSearchIndex = i.maxSearchIndex

/-- The keys of an image ascend, so none comes again. -/
structure Ascending (i : Image) : Prop where
  devices : i.devices.Pairwise fun a b => compare a.1 b.1 = .lt
  series : ∀ d ∈ i.devices, d.2.Pairwise fun a b => compare a.1 b.1 = .lt
  points : ∀ d ∈ i.devices, ∀ s ∈ d.2, s.2.Pairwise fun a b => compare a.1 b.1 = .lt

variable {i : Image} {t : MemTable}

private theorem lookup_map {κ ν ω : Type} [DecidableEq κ] (f : ν → ω) (l : List (κ × ν)) (k : κ) :
    (l.map fun p => (p.1, f p.2)).lookup k = (l.lookup k).map f := by
  induction l with
  | nil => rfl
  | cons p l ih =>
    rw [List.map_cons, List.lookup_cons, List.lookup_cons, ih]
    cases k == p.1 <;> rfl

theorem get?_gather (series : List (String × List (Int64 × Value))) (measurement : String) :
    (gather series).get? measurement = (series.reverse.lookup measurement).map .ofList := by
  rw [gather, SortedMap.get?_ofList, ← List.map_reverse, lookup_map]

theorem get?_table (i : Image) (device : String) : i.table.devices.get? device = (i.device? device).map gather := by
  rw [table, SortedMap.get?_ofList, ← List.map_reverse, lookup_map, device?]

theorem series?_table (i : Image) (device measurement : String) :
    i.table.series? device measurement = (i.series? device measurement).map .ofList := by
  rw [MemTable.series?, get?_table, series?]
  cases i.device? device with
  | none => rfl
  | some series => exact get?_gather series measurement

theorem shows_table (i : Image) : i.Shows i.table where
  device device := by rw [get?_table, Option.isSome_map]
  series device measurement := by rw [series?_table, Option.isSome_map]
  value device measurement time := by
    rw [MemTable.value?, series?_table, value?]
    cases i.series? device measurement with
    | none => rfl
    | some points => exact SortedMap.get?_ofList points time
  index := rfl

/-- An image shows one table. -/
theorem shows_iff : i.Shows t ↔ t = i.table := by
  constructor
  · intro h
    have hi := i.shows_table
    exact MemTable.ext_points (fun d => (h.device d).trans (hi.device d).symm)
      (fun d m => (h.series d m).trans (hi.series d m).symm)
      (fun x => (h.value x.device x.measurement x.time).trans (hi.value x.device x.measurement x.time).symm)
      (h.index.trans hi.index.symm)
  · rintro rfl
    exact i.shows_table

theorem of_ascending (t : MemTable) : (of t).Ascending where
  devices := List.pairwise_map.2 t.devices.ascending
  series d hd := by
    obtain ⟨d, -, rfl⟩ := List.mem_map.1 hd
    exact List.pairwise_map.2 d.2.ascending
  points d hd s hs := by
    obtain ⟨d, -, rfl⟩ := List.mem_map.1 hd
    obtain ⟨s, -, rfl⟩ := List.mem_map.1 hs
    exact s.2.ascending

theorem gather_spread (series : SortedMap String Series) : gather (spread series) = series := by
  simp only [gather, spread, List.map_map, Function.comp_def, SortedMap.ofList_entries, List.map_id']

theorem table_of (t : MemTable) : (of t).table = t := by
  simp only [table, of, List.map_map, Function.comp_def, gather_spread, SortedMap.ofList_entries, List.map_id']

/-- The pairs of a map of ascending pairs, each with its value in another form and back. -/
private theorem entries_ofList_map {κ ν ω : Type} [Ord κ] [Std.TransOrd κ] [Std.LawfulEqOrd κ] {l : List (κ × ν)}
    {there : ν → ω} {back : ω → ν} (h : l.Pairwise fun a b => compare a.1 b.1 = .lt)
    (hback : ∀ p ∈ l, back (there p.2) = p.2) :
    (SortedMap.ofList (l.map fun p => (p.1, there p.2))).entries.map (fun p => (p.1, back p.2)) = l := by
  have hmap : (l.map fun p => (p.1, there p.2)).Pairwise fun a b => compare a.1 b.1 = .lt := List.pairwise_map.2 h
  rw [SortedMap.entries_ofList hmap, List.map_map]
  refine (List.map_congr_left fun p hp => ?_).trans (List.map_id l)
  exact Prod.ext rfl (hback p hp)

/-- Among the images of a table the one whose keys ascend is that of its pairs. -/
theorem of_table (h : i.Ascending) : of i.table = i := by
  have hpoints : ∀ d ∈ i.devices, ∀ s ∈ d.2, (SortedMap.ofList s.2).entries = s.2 := fun d hd s hs =>
    SortedMap.entries_ofList (h.points d hd s hs)
  have hseries : ∀ d ∈ i.devices, spread (gather d.2) = d.2 := fun d hd =>
    entries_ofList_map (h.series d hd) (hpoints d hd)
  exact congrArg (Image.mk · i.maxSearchIndex) (entries_ofList_map h.devices hseries)

end Image

namespace Format

/-- The bytes of a table's image as they stand. -/
def image : Format Image :=
  ((text.pair (text.pair (int64.pair value).list).list).list.pair word64.option).imap
    (fun (devices, index) => ⟨devices, index⟩) (fun i => (i.devices, i.maxSearchIndex))

private theorem devices_view : ((text.map (text.map (int64.map value))).pair word64.option).View
    ((text.pair (text.pair (int64.pair value).list).list).list.pair word64.option)
    (fun p => (SortedMap.ofList (p.1.map fun d => (d.1, Image.gather d.2)), p.2))
    (fun p => (p.1.entries.map fun d => (d.1, Image.spread d.2), p.2)) :=
  (((map_view int64 value).map text).map text).pair_left word64.option

theorem memTable_view : memTable.View image Image.table Image.of where
  read := by
    rw [memTable, image, Format.imap, Format.imap, devices_view.read, Reader.map_map, Reader.map_map]
    rfl
  write t := devices_view.write (t.devices, t.maxSearchIndex)

theorem image_exact : image.Exact :=
  ((text_exact.pair (text_exact.pair (int64_exact.pair value_exact).list).list).list.pair word64_exact.option).imap
    fun _ => rfl

theorem image_roundTrips : image.RoundTrips :=
  (((text_roundTrips.pair ((text_roundTrips.pair (((roundTrips_of_reads int64_read).pair value_roundTrips).list
    (int64_positive.pair value))).list (text_positive.pair _))).list (text_positive.pair _)).pair
      (roundTrips_of_reads word64_read).option).imap fun _ => rfl

/-- A table is read from the bytes of its images, and from no others. -/
theorem memTable_decode_iff {bs : Bytes} {t : MemTable} :
    memTable.decode bs = .ok t ↔ ∃ i, image.decode bs = .ok i ∧ i.Shows t := by
  rw [Format.decode, Format.decode, memTable_view.read, Reader.map, Reader.bind]
  cases image.read bs with
  | error e =>
    constructor
    · intro h
      cases h
    · rintro ⟨i, hi, -⟩
      cases hi
  | ok p =>
    constructor
    · intro h
      cases h
      exact ⟨p.1, rfl, p.1.shows_table⟩
    · rintro ⟨i, hi, hshows⟩
      cases hi
      rw [Image.shows_iff.1 hshows]
      rfl

/-- Tables and their images.  What is written for a table is read back, whatever follows it.  The bytes of any image, with
keys in any order that may come again, are read as the one table that has what stands last under each key, and nothing else is
read as a table.  What was read is read again when it is written.  Of the images of a table one has ascending keys, and its
bytes are those written for the table.  So tables are equal exactly if the same is written for them. -/
theorem memTable_images :
    (∀ t rest, (memTable.write t).length < UInt64.size → memTable.decode (memTable.write t ++ rest) = .ok t) ∧
      (∀ i rest, (image.write i).length < UInt64.size →
        ∃ t, memTable.decode (image.write i ++ rest) = .ok t ∧ ∀ t', i.Shows t' ↔ t' = t) ∧
      (∀ bs t, memTable.decode bs = .ok t → (∃ i rest, bs = image.write i ++ rest ∧ i.Shows t) ∧
        ∀ rest, memTable.decode (memTable.write t ++ rest) = .ok t) ∧
      (∀ t, ∃ i, image.write i = memTable.write t ∧ ∀ j, j.Ascending ∧ j.Shows t ↔ j = i) ∧
      ∀ t t', (memTable.write t).length < UInt64.size → (t = t' ↔ memTable.write t = memTable.write t') := by
  have hread : ∀ t rest, (memTable.write t).length < UInt64.size → memTable.decode (memTable.write t ++ rest) = .ok t :=
    fun t rest ht => memTable_roundTrips.decode ht rest
  refine ⟨hread, fun i rest hi => ?_, fun bs t h => ⟨?_, fun rest => ?_⟩, fun t => ?_, fun t t' ht => ⟨?_, fun h => ?_⟩⟩
  · exact ⟨i.table, memTable_decode_iff.2 ⟨i, image_roundTrips.decode hi rest, i.shows_table⟩, fun t' => Image.shows_iff⟩
  · obtain ⟨i, hi, hshows⟩ := memTable_decode_iff.1 h
    obtain ⟨rest, hrest⟩ := image_exact.decode hi
    exact ⟨i, rest, hrest, hshows⟩
  · rw [Format.decode, memTable_stable.decode h rest]
  · refine ⟨.of t, (memTable_view.write t).symm, fun j => ⟨?_, ?_⟩⟩
    · rintro ⟨hj, hshows⟩
      rw [Image.shows_iff.1 hshows, Image.of_table hj]
    · rintro rfl
      exact ⟨Image.of_ascending t, Image.shows_iff.2 (Image.table_of t).symm⟩
  · rintro rfl
    rfl
  · have h' := hread t [] ht
    rw [h, hread t' [] (h ▸ ht)] at h'
    cases h'
    rfl

/-- An image with a device twice, and with a time twice in what stands last under it. -/
def repeated : Image where
  devices := [("e", [("m", [(1, .boolean true)])]), ("d", [("m", [(1, .int32 5)])]),
    ("d", [("n", [(2, .int64 3), (1, .float 1), (2, .double 4)])])]
  maxSearchIndex := some 7

/-- The table of the image has nothing under the measurement that stands under the first of the two devices. -/
theorem memTable_images_repeated : ∃ t, memTable.decode (image.write repeated ++ [0]) = .ok t ∧
    t.value? "d" "m" 1 = none ∧ t.value? "d" "n" 2 = some (.double 4) ∧ t.value? "e" "m" 1 = some (.boolean true) ∧
      memTable.decode (memTable.write t) = .ok t := by
  have hlength : (image.write repeated).length = 204 := by cbv
  have hsize : (image.write repeated).length < UInt64.size := by rw [hlength]; decide
  obtain ⟨-, himages, hagain, -⟩ := memTable_images
  obtain ⟨t, ht, hshows⟩ := himages repeated [0] hsize
  obtain ⟨-, hrest⟩ := hagain _ t ht
  have hvalue := ((hshows t).2 rfl).value
  refine ⟨t, ht, ?_, ?_, ?_, ?_⟩
  · exact (hvalue "d" "m" 1).trans (by decide)
  · exact (hvalue "d" "n" 2).trans (by decide)
  · exact (hvalue "e" "m" 1).trans (by decide)
  · rw [← hrest [], List.append_nil]

end Format

end SeriesRegion.Binary
