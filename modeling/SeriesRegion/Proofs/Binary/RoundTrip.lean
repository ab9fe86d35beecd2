import SeriesRegion.Binary.Entry

/-!
# Reading back what was written

A layout reads back a value if it reads it from the bytes written for it and leaves what follows unread (`Format.Reads`).
Lengths are written in eight bytes, so a layout reads back what takes less than `2 ^ 64` bytes (`Format.RoundTrips`); this
follows for each layout from its parts, and in the end for log entries (`Format.logEntry_roundTrips`) and for images of tables
(`Format.memTable_roundTrips`), which take at least a byte for each point (`Format.pointCount_le`).
-/

namespace SeriesRegion.Binary

/-! ### Readers -/

namespace Reader

variable {α β : Type}

theorem bind_ok {r : Reader α} {f : α → Reader β} {bs rest : Bytes} {a : α} (h : r bs = .ok (a, rest)) :
    r.bind f bs = f a rest := by
  rw [bind, h]

theorem map_ok {r : Reader α} {f : α → β} {bs rest : Bytes} {a : α} (h : r bs = .ok (a, rest)) :
    r.map f bs = .ok (f a, rest) :=
  bind_ok h

theorem take_append {bs : Bytes} {n : Nat} (h : bs.length = n) (short : Fault) (rest : Bytes) :
    take n short (bs ++ rest) = .ok (bs, rest) := by
  subst h
  simp [take]

end Reader

namespace Format

variable {α β : Type}

/-- A layout reads back a value, whatever follows it. -/
def Reads (f : Format α) (a : α) : Prop := ∀ rest, f.read (f.write a ++ rest) = .ok (a, rest)

/-- A layout reads back what it writes, if that is not too long for its length to be written down. -/
def RoundTrips (f : Format α) : Prop :=
  ∀ a rest, (f.write a).length < UInt64.size → f.read (f.write a ++ rest) = .ok (a, rest)

/-- Whatever a layout writes takes at least one byte. -/
def Positive (f : Format α) : Prop := ∀ a, 0 < (f.write a).length

theorem RoundTrips.reads {f : Format α} (h : f.RoundTrips) {a : α} (ha : (f.write a).length < UInt64.size) : f.Reads a :=
  fun rest => h a rest ha

theorem roundTrips_of_reads {f : Format α} (h : ∀ a, f.Reads a) : f.RoundTrips := fun a rest _ => h a rest

theorem Reads.decode {f : Format α} {a : α} (h : f.Reads a) : f.decode (f.write a) = .ok a := by
  have := h []
  rw [List.append_nil] at this
  rw [Format.decode, this]

/-! ### Numbers -/

theorem number_read (width : Nat) {n : Nat} (h : n < Nat.pow 256 width) : (number width).Reads n := by
  intro rest
  have hn : ofLittleEndian (littleEndian width n) = n := by
    rw [ofLittleEndian_littleEndian, Nat.mod_eq_of_lt h]
  rw [← hn]
  refine Reader.map_ok ?_
  rw [hn]
  exact Reader.take_append (length_littleEndian width n) .truncated rest

theorem length_read {n : Nat} (h : n < UInt64.size) : length.Reads n := number_read 8 h

theorem Reads.imap {f : Format α} {there : α → β} {back : β → α} {b : β} (h : f.Reads (back b))
    (hb : there (back b) = b) : (f.imap there back).Reads b := by
  intro rest
  have := Reader.map_ok (f := there) (h rest)
  rw [hb] at this
  exact this

theorem RoundTrips.imap {f : Format α} (h : f.RoundTrips) {there : α → β} {back : β → α}
    (hb : ∀ b, there (back b) = b) : (f.imap there back).RoundTrips :=
  fun b rest hlt => Reads.imap (h.reads hlt) (hb b) rest

theorem word8_read (n : UInt8) : word8.Reads n := (number_read 1 n.toNat_lt).imap UInt8.ofNat_toNat

theorem word32_read (n : UInt32) : word32.Reads n := (number_read 4 n.toNat_lt).imap UInt32.ofNat_toNat

theorem word64_read (n : UInt64) : word64.Reads n := (number_read 8 n.toNat_lt).imap UInt64.ofNat_toNat

theorem int32_read (n : Int32) : int32.Reads n := (word32_read n.toUInt32).imap (Int32.toInt32_toUInt32 n)

theorem int64_read (n : Int64) : int64.Reads n := (word64_read n.toUInt64).imap (Int64.toInt64_toUInt64 n)

theorem length_write (n : Nat) : (length.write n).length = 8 := length_littleEndian 8 n

theorem word32_write (n : UInt32) : (word32.write n).length = 4 := length_littleEndian 4 n.toNat

theorem boolean_read (b : Bool) : boolean.Reads b := by
  intro rest
  cases b with
  | false =>
    simp only [boolean]
    rw [Reader.bind_ok (word8_read _ _)]
    rfl
  | true =>
    simp only [boolean]
    rw [Reader.bind_ok (word8_read _ _)]
    rfl

/-! ### Texts and lists -/

theorem decode_ofText (s : String) : Utf8.decode (Bytes.ofText s) = .ok s := by
  have hs : (⟨s.toByteArray.data.toList.toArray⟩ : ByteArray) = s.toByteArray := rfl
  have hv : s.toByteArray.IsValidUTF8 := s.isValidUTF8
  rw [Utf8.decode, Bytes.ofText, hs, String.fromUTF8?, dif_pos (by simpa using hv)]
  rfl

theorem text_read {s : String} (h : (Bytes.ofText s).length < UInt64.size) : text.Reads s := by
  intro rest
  simp only [text, List.append_assoc]
  rw [Reader.bind_ok (length_read h _), Reader.bind_ok (Reader.take_append rfl _ rest), decode_ofText]
  rfl

theorem text_write (s : String) : (text.write s).length = 8 + (Bytes.ofText s).length := by
  show (length.write (Bytes.ofText s).length ++ Bytes.ofText s).length = _
  rw [List.length_append, length_write]

theorem text_roundTrips : text.RoundTrips := by
  intro s rest hlt
  rw [text_write] at hlt
  exact text_read (by omega) rest

theorem text_positive : text.Positive := by
  intro s
  rw [text_write]
  omega

theorem Reads.pair {f : Format α} {g : Format β} {a : α} {b : β} (hf : f.Reads a) (hg : g.Reads b) :
    (f.pair g).Reads (a, b) := by
  intro rest
  simp only [Format.pair, List.append_assoc]
  rw [Reader.bind_ok (hf _)]
  exact Reader.map_ok (hg rest)

theorem pair_write (f : Format α) (g : Format β) (p : α × β) :
    ((f.pair g).write p).length = (f.write p.1).length + (g.write p.2).length := List.length_append

theorem RoundTrips.pair {f : Format α} {g : Format β} (hf : f.RoundTrips) (hg : g.RoundTrips) :
    (f.pair g).RoundTrips := by
  intro p rest hlt
  rw [pair_write] at hlt
  exact Reads.pair (hf.reads (by omega)) (hg.reads (by omega)) rest

theorem Positive.pair {f : Format α} (g : Format β) (hf : f.Positive) : (f.pair g).Positive := by
  intro p
  have := hf p.1
  rw [pair_write]
  omega

theorem Positive.imap {f : Format α} (hf : f.Positive) (there : α → β) (back : β → α) :
    (f.imap there back).Positive :=
  fun b => hf (back b)

/-- A row of items is read back item by item. -/
theorem Reads.replicate {f : Format α} {as : List α} (h : ∀ a ∈ as, f.Reads a) (rest : Bytes) :
    f.read.replicate as.length (as.flatMap f.write ++ rest) = .ok (as, rest) := by
  induction as with
  | nil => rfl
  | cons a as ih =>
    rw [List.flatMap_cons, List.length_cons, Reader.replicate_succ, List.append_assoc,
      Reader.bind_ok (h a List.mem_cons_self _)]
    exact Reader.map_ok (ih fun a' ha => h a' (List.mem_cons_of_mem _ ha))

theorem Reads.list {f : Format α} {as : List α} (length : as.length < UInt64.size) (h : ∀ a ∈ as, f.Reads a) :
    f.list.Reads as := by
  intro rest
  simp only [Format.list, List.append_assoc]
  rw [Reader.bind_ok (length_read length _)]
  exact Reads.replicate h rest

theorem Positive.length_le {f : Format α} (h : f.Positive) (as : List α) :
    as.length ≤ (as.flatMap f.write).length := by
  induction as with
  | nil => exact Nat.zero_le _
  | cons a as ih =>
    rw [List.flatMap_cons, List.length_append, List.length_cons]
    have := h a
    omega

theorem list_write (f : Format α) (as : List α) :
    (f.list.write as).length = 8 + (as.flatMap f.write).length := by
  show (length.write as.length ++ as.flatMap f.write).length = _
  rw [List.length_append, length_write]

theorem list_positive (f : Format α) : f.list.Positive := by
  intro as
  rw [list_write]
  omega

theorem length_write_le_of_mem {f : Format α} {as : List α} {a : α} (h : a ∈ as) :
    (f.write a).length ≤ (as.flatMap f.write).length := by
  rw [List.flatMap_def]
  exact (List.sublist_flatten_of_mem (List.mem_map.2 ⟨a, h, rfl⟩)).length_le

theorem RoundTrips.list {f : Format α} (h : f.RoundTrips) (hp : f.Positive) : f.list.RoundTrips := by
  intro as rest hlt
  rw [list_write] at hlt
  have hlength := hp.length_le as
  refine Reads.list (by omega) (fun a ha => h.reads ?_) rest
  have := length_write_le_of_mem (f := f) ha
  omega

theorem option_read {f : Format α} {a : Option α} (h : ∀ b, a = some b → f.Reads b) : f.option.Reads a := by
  intro rest
  cases a with
  | none =>
    simp only [Format.option]
    rw [Reader.bind_ok (word8_read _ _)]
    rfl
  | some b =>
    simp only [Format.option, List.append_assoc]
    rw [Reader.bind_ok (word8_read _ _)]
    exact Reader.map_ok (h b rfl rest)

theorem RoundTrips.option {f : Format α} (h : f.RoundTrips) : f.option.RoundTrips := by
  intro a rest hlt
  refine option_read (fun b hb => h.reads ?_) rest
  subst hb
  simp only [Format.option, List.length_append] at hlt
  omega

section Maps

variable {κ ν : Type} [Ord κ] [Std.TransOrd κ] [Std.LawfulEqOrd κ] {k : Format κ} {v : Format ν}

theorem RoundTrips.map (hk : k.RoundTrips) (hv : v.RoundTrips) (positive : k.Positive) : (k.map v).RoundTrips :=
  ((hk.pair hv).list (positive.pair v)).imap SortedMap.ofList_entries

theorem map_write (k : Format κ) (v : Format ν) (m : SortedMap κ ν) :
    ((k.map v).write m).length = 8 + (m.entries.flatMap (k.pair v).write).length := list_write (k.pair v) m.entries

/-- A map takes at least a byte for each of its keys. -/
theorem size_le (positive : k.Positive) (v : Format ν) (m : SortedMap κ ν) : m.size ≤ ((k.map v).write m).length := by
  have hlength := (positive.pair v).length_le m.entries
  rw [map_write, SortedMap.size, ← Array.length_toList]
  exact Nat.le_add_left_of_le hlength

/-- If each value counts no more than the bytes that it takes, neither do all. -/
theorem foldl_values_le (k : Format κ) {count : Nat → ν → Nat} (h : ∀ n a, count n a ≤ n + (v.write a).length)
    (m : SortedMap κ ν) (n : Nat) : m.values.foldl count n ≤ n + ((k.map v).write m).length := by
  have hfold : ∀ (entries : List (κ × ν)) (n : Nat),
      (entries.map (·.2)).foldl count n ≤ n + (entries.flatMap (k.pair v).write).length := by
    intro entries
    induction entries with
    | nil => exact fun n => Nat.le_refl n
    | cons e entries ih =>
      intro n
      have hfirst := h n e.2
      have hrest := ih (count n e.2)
      rw [List.map_cons, List.foldl_cons, List.flatMap_cons, List.length_append, pair_write]
      omega
  have hall := hfold m.entries n
  rw [map_write, SortedMap.values]
  omega

end Maps

/-! ### Values of several kinds -/

section Variants

variable {count : Nat} {write : α → UInt32 × Bytes} {read : UInt32 → Option (Reader α)}

theorem variants_read {a : α} {r : Reader α} (number : read (write a).1 = some r)
    (h : ∀ rest, r ((write a).2 ++ rest) = .ok (a, rest)) : (variants count write read).Reads a := by
  intro rest
  simp only [variants, List.append_assoc]
  rw [Reader.bind_ok (word32_read _ _), number]
  exact h rest

theorem variants_write (count : Nat) (write : α → UInt32 × Bytes) (read : UInt32 → Option (Reader α)) (a : α) :
    ((variants count write read).write a).length = 4 + (write a).2.length := by
  show (word32.write (write a).1 ++ (write a).2).length = _
  rw [List.length_append, word32_write]

/-- A value of several kinds is read back if each kind is read back under its number. -/
theorem variants_roundTrips (h : ∀ a, ∃ r, read (write a).1 = some r ∧
    ∀ rest, (write a).2.length < UInt64.size → r ((write a).2 ++ rest) = .ok (a, rest)) :
    (variants count write read).RoundTrips := by
  intro a rest hlt
  rw [variants_write] at hlt
  obtain ⟨r, hr, hread⟩ := h a
  exact variants_read hr (fun rest => hread rest (by omega)) rest

theorem variants_positive (count : Nat) (write : α → UInt32 × Bytes) (read : UInt32 → Option (Reader α)) :
    (variants count write read).Positive := by
  intro a
  rw [variants_write]
  omega

end Variants

/-! ### Log entries -/

theorem value_roundTrips : value.RoundTrips := by
  refine variants_roundTrips fun v => ?_
  cases v with
  | boolean b => exact ⟨_, rfl, fun rest _ => Reader.map_ok (boolean_read b rest)⟩
  | int32 n => exact ⟨_, rfl, fun rest _ => Reader.map_ok (int32_read n rest)⟩
  | int64 n => exact ⟨_, rfl, fun rest _ => Reader.map_ok (int64_read n rest)⟩
  | float bits => exact ⟨_, rfl, fun rest _ => Reader.map_ok (word32_read bits rest)⟩
  | double bits => exact ⟨_, rfl, fun rest _ => Reader.map_ok (word64_read bits rest)⟩
  | text s => exact ⟨_, rfl, fun rest h => Reader.map_ok (text_roundTrips s rest h)⟩

theorem value_positive : value.Positive := variants_positive _ _ _

theorem int64_positive : int64.Positive := by
  intro n
  have : (int64.write n).length = 8 := length_littleEndian 8 _
  omega

theorem row_roundTrips : row.RoundTrips :=
  (text_roundTrips.pair ((roundTrips_of_reads int64_read).pair
    ((text_roundTrips.list text_positive).pair (value_roundTrips.list value_positive)))).imap fun _ => rfl

theorem tablet_roundTrips : tablet.RoundTrips :=
  (text_roundTrips.pair ((text_roundTrips.list text_positive).pair
    (((roundTrips_of_reads int64_read).list int64_positive).pair
      ((value_roundTrips.list value_positive).list (list_positive _))))).imap fun _ => rfl

theorem payload_roundTrips : payload.RoundTrips := by
  refine variants_roundTrips fun p => ?_
  cases p with
  | row r => exact ⟨_, rfl, fun rest h => Reader.map_ok (row_roundTrips r rest h)⟩
  | tablet t => exact ⟨_, rfl, fun rest h => Reader.map_ok (tablet_roundTrips t rest h)⟩

/-- What is logged is read back as it was, whatever is logged after it. -/
theorem logEntry_roundTrips : logEntry.RoundTrips :=
  ((roundTrips_of_reads word64_read).option.pair payload_roundTrips).imap fun _ => rfl

/-! ### Images of tables -/

/-- The image of a table is read back as it was, bit for bit. -/
theorem memTable_roundTrips : memTable.RoundTrips :=
  ((text_roundTrips.map (text_roundTrips.map ((roundTrips_of_reads int64_read).map value_roundTrips int64_positive)
    text_positive) text_positive).pair (roundTrips_of_reads word64_read).option).imap fun _ => rfl

/-- The image of a table takes at least a byte for each point. -/
theorem pointCount_le (t : MemTable) : t.pointCount ≤ (memTable.write t).length := by
  have hdevices : t.pointCount ≤ 0 + ((text.map (text.map (int64.map value))).write t.devices).length :=
    foldl_values_le text (fun n device =>
      foldl_values_le text (fun n s => Nat.add_le_add_left (size_le int64_positive value s) n) device n) t.devices 0
  have hwrite : (memTable.write t).length =
      ((text.map (text.map (int64.map value))).write t.devices).length + (word64.option.write t.maxSearchIndex).length :=
    pair_write _ _ _
  omega

end Format

end SeriesRegion.Binary
