import SeriesRegion.Proofs.Binary.RoundTrip

/-!
# Writing what was read

What a layout has read it also reads back when it is written (`Format.Stable`): lengths that were read can be written down,
so nothing needs to be said of sizes.  This follows for each layout from its parts, and in the end for the image of a table
(`Format.memTable_stable`).
-/

namespace SeriesRegion.Binary

/-! ### Readers -/

namespace Reader

variable {α β : Type}

theorem bind_eq_ok {r : Reader α} {f : α → Reader β} {bs rest : Bytes} {b : β} (h : r.bind f bs = .ok (b, rest)) :
    ∃ a mid, r bs = .ok (a, mid) ∧ f a mid = .ok (b, rest) := by
  rw [bind] at h
  cases hr : r bs with
  | error e =>
    rw [hr] at h
    cases h
  | ok p =>
    rw [hr] at h
    exact ⟨p.1, p.2, rfl, h⟩

theorem map_eq_ok {r : Reader α} {f : α → β} {bs rest : Bytes} {b : β} (h : r.map f bs = .ok (b, rest)) :
    ∃ a, r bs = .ok (a, rest) ∧ f a = b := by
  obtain ⟨a, mid, ha, hb⟩ := bind_eq_ok h
  cases hb
  exact ⟨a, ha, rfl⟩

theorem take_eq_ok {n : Nat} {short : Fault} {bs taken rest : Bytes} (h : take n short bs = .ok (taken, rest)) :
    taken.length = n ∧ bs = taken ++ rest := by
  simp only [take] at h
  split at h
  · cases h
  · rename_i hlength
    cases h
    refine ⟨?_, (List.take_append_drop n bs).symm⟩
    rw [List.length_take] at hlength ⊢
    omega

/-- As many values are read as are asked for, each of them somewhere. -/
theorem replicate_eq_ok {r : Reader α} {n : Nat} {bs rest : Bytes} {as : List α}
    (h : r.replicate n bs = .ok (as, rest)) : as.length = n ∧ ∀ a ∈ as, ∃ bs' rest', r bs' = .ok (a, rest') := by
  induction n generalizing bs as with
  | zero =>
    cases h
    exact ⟨rfl, nofun⟩
  | succ n ih =>
    rw [replicate_succ] at h
    obtain ⟨a, mid, ha, h⟩ := bind_eq_ok h
    obtain ⟨as, has, rfl⟩ := map_eq_ok h
    obtain ⟨hlength, hmem⟩ := ih has
    refine ⟨by rw [List.length_cons, hlength], ?_⟩
    rw [List.forall_mem_cons]
    exact ⟨⟨bs, mid, ha⟩, hmem⟩

end Reader

namespace Format

variable {α β : Type}

/-- What a layout has read it reads back. -/
def Stable (f : Format α) : Prop := ∀ bs a rest, f.read bs = .ok (a, rest) → f.Reads a

theorem stable_of_reads {f : Format α} (h : ∀ a, f.Reads a) : f.Stable := fun _ a _ _ => h a

theorem Stable.decode {f : Format α} (h : f.Stable) {bs : Bytes} {a : α} (hd : f.decode bs = .ok a) : f.Reads a := by
  rw [Format.decode] at hd
  cases hr : f.read bs with
  | error e =>
    rw [hr] at hd
    cases hd
  | ok p =>
    rw [hr] at hd
    cases hd
    exact h _ _ _ hr

/-- A number that was read can be written in as many bytes. -/
theorem number_lt_of_read {width n : Nat} {bs rest : Bytes} (h : (number width).read bs = .ok (n, rest)) :
    n < Nat.pow 256 width := by
  obtain ⟨taken, htaken, rfl⟩ := Reader.map_eq_ok h
  obtain ⟨hlength, -⟩ := Reader.take_eq_ok htaken
  have hmod := ofLittleEndian_littleEndian taken.length (ofLittleEndian taken)
  rw [littleEndian_ofLittleEndian, hlength] at hmod
  rw [hmod]
  exact Nat.mod_lt _ (Nat.pow_pos (by decide))

/-- A length that was read is below the number of words. -/
theorem length_lt_of_read {bs rest : Bytes} {n : Nat} (h : length.read bs = .ok (n, rest)) : n < UInt64.size :=
  number_lt_of_read h

theorem ofText_of_decode {bs : Bytes} {s : String} (h : Utf8.decode bs = .ok s) : Bytes.ofText s = bs := by
  rw [Utf8.decode, String.fromUTF8?] at h
  split at h
  · rename_i hs
    split at hs
    · cases h
      cases hs
      rfl
    · cases hs
  · cases h

theorem text_stable : text.Stable := by
  intro bs s rest h
  obtain ⟨n, mid, hn, h⟩ := Reader.bind_eq_ok h
  obtain ⟨taken, mid', htaken, h⟩ := Reader.bind_eq_ok h
  obtain ⟨hlength, -⟩ := Reader.take_eq_ok htaken
  refine text_read ?_
  cases hs : Utf8.decode taken with
  | error e =>
    rw [hs] at h
    cases h
  | ok s' =>
    rw [hs] at h
    cases h
    rw [ofText_of_decode hs, hlength]
    exact length_lt_of_read hn

theorem Stable.pair {f : Format α} {g : Format β} (hf : f.Stable) (hg : g.Stable) : (f.pair g).Stable := by
  intro bs p rest h
  obtain ⟨a, mid, ha, h⟩ := Reader.bind_eq_ok h
  obtain ⟨b, hb, rfl⟩ := Reader.map_eq_ok h
  exact (hf _ _ _ ha).pair (hg _ _ _ hb)

theorem Stable.option {f : Format α} (hf : f.Stable) : f.option.Stable := by
  intro bs a rest h
  refine option_read fun b hb => ?_
  subst hb
  obtain ⟨n, mid, -, h⟩ := Reader.bind_eq_ok h
  split at h
  · cases h
  · split at h
    · obtain ⟨b', hb', heq⟩ := Reader.map_eq_ok h
      cases heq
      exact hf _ _ _ hb'
    · cases h

/-- A map is read as the map of a list of pairs, so all of its pairs have been read. -/
theorem Stable.map {κ ν : Type} [Ord κ] [Std.TransOrd κ] [Std.LawfulEqOrd κ] {k : Format κ} {v : Format ν}
    (hk : k.Stable) (hv : v.Stable) : (map k v).Stable := by
  intro bs m rest h
  obtain ⟨pairs, hpairs, rfl⟩ := Reader.map_eq_ok h
  obtain ⟨n, mid, hn, hall⟩ := Reader.bind_eq_ok hpairs
  obtain ⟨hlength, hmem⟩ := Reader.replicate_eq_ok hall
  obtain ⟨hsub, hle⟩ := SortedMap.ofList_le pairs
  refine Reads.imap (Reads.list ?_ fun p hp => ?_) (SortedMap.ofList_entries _)
  · have := length_lt_of_read hn
    omega
  · obtain ⟨bs', rest', hp⟩ := hmem p (hsub p hp)
    exact hk.pair hv _ _ _ hp

theorem variants_eq_ok {count : Nat} {write : α → UInt32 × Bytes} {read : UInt32 → Option (Reader α)} {bs rest : Bytes}
    {a : α} (h : (variants count write read).read bs = .ok (a, rest)) :
    ∃ n r mid, word32.read bs = .ok (n, mid) ∧ read n = some r ∧ r mid = .ok (a, rest) := by
  obtain ⟨n, mid, hn, h⟩ := Reader.bind_eq_ok h
  cases hr : read n with
  | none =>
    rw [hr] at h
    cases h
  | some r =>
    rw [hr] at h
    exact ⟨n, r, mid, hn, hr, h⟩

/-- A text among the values has been read as a text. -/
private theorem text_reads_of_value {bs rest : Bytes} {s : String} (h : value.read bs = .ok (.text s, rest)) :
    text.Reads s := by
  obtain ⟨n, r, mid, -, hr, h⟩ := variants_eq_ok h
  split at hr
  case h_6 =>
    cases hr
    obtain ⟨s', hs', heq⟩ := Reader.map_eq_ok h
    cases heq
    exact text_stable _ _ _ hs'
  case h_7 => cases hr
  all_goals
    cases hr
    obtain ⟨_, -, heq⟩ := Reader.map_eq_ok h
    cases heq

theorem value_stable : value.Stable := by
  intro bs v rest h
  cases v with
  | boolean b => exact variants_read rfl fun rest => Reader.map_ok (boolean_read b rest)
  | int32 n => exact variants_read rfl fun rest => Reader.map_ok (int32_read n rest)
  | int64 n => exact variants_read rfl fun rest => Reader.map_ok (int64_read n rest)
  | float bits => exact variants_read rfl fun rest => Reader.map_ok (word32_read bits rest)
  | double bits => exact variants_read rfl fun rest => Reader.map_ok (word64_read bits rest)
  | text s => exact variants_read rfl fun rest => Reader.map_ok (text_reads_of_value h rest)

/-- The image of a table that was read is read back when the table is written. -/
theorem memTable_stable : memTable.Stable := by
  intro bs t rest h
  obtain ⟨⟨devices, index⟩, hread, rfl⟩ := Reader.map_eq_ok h
  have hstable := (text_stable.map (text_stable.map ((stable_of_reads int64_read).map value_stable))).pair
    (stable_of_reads word64_read).option
  refine Reads.imap ?_ rfl
  exact hstable _ _ _ hread

end Format

end SeriesRegion.Binary
