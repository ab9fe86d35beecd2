import SeriesRegion.Text.Uuid

/-!
# Identifiers that are written are read

An identifier of sixteen bytes is read from its text (`Uuid.parse_text`).
-/

namespace SeriesRegion.Uuid

theorem utf8Size_hexDigit : ∀ d < 16, (hexDigit d).utf8Size = 1 := by decide

theorem size_eq_length {s : List Char} (h : ∀ c ∈ s, c.utf8Size = 1) : size s = s.length := by
  induction s with
  | nil => rfl
  | cons c s ih =>
    have hsize : size (c :: s) = c.utf8Size + size s := rfl
    rw [hsize, h c List.mem_cons_self, ih fun d hd => h d (List.mem_cons_of_mem _ hd), List.length_cons, Nat.add_comm]

/-- Digits are left in where no hyphen is expected. -/
theorem filter_zipIdx (g : List Char) (first : Nat) (h : ∀ i ∈ hyphens, i < first ∨ first + g.length ≤ i) :
    ((g.zipIdx first).filter fun p => !hyphens.contains p.2).map (·.1) = g := by
  have hall : (g.zipIdx first).filter (fun p => !hyphens.contains p.2) = g.zipIdx first := by
    rw [List.filter_eq_self]
    intro p hp
    obtain ⟨hlow, hhigh, -⟩ := List.mem_zipIdx hp
    have hnot : p.2 ∉ hyphens := by
      intro hmem
      obtain hlt | hle := h p.2 hmem <;> omega
    simpa using hnot
  rw [hall, List.zipIdx_map_fst]

/-- Digits in groups are read, whatever they are. -/
theorem ofGroups?_groups {g₁ g₂ g₃ g₄ g₅ : List Char} (h₁ : g₁.length = 8) (h₂ : g₂.length = 4) (h₃ : g₃.length = 4)
    (h₄ : g₄.length = 4) (h₅ : g₅.length = 12) :
    ofGroups? (g₁ ++ '-' :: (g₂ ++ '-' :: (g₃ ++ '-' :: (g₄ ++ '-' :: g₅)))) =
      (Bytes.ofHexDigits? (g₁ ++ (g₂ ++ (g₃ ++ (g₄ ++ g₅))))).map Uuid.mk := by
  have hhyphens : hyphens.all fun i => (g₁ ++ '-' :: (g₂ ++ '-' :: (g₃ ++ '-' :: (g₄ ++ '-' :: g₅))))[i]? = some '-' := by
    simp [hyphens, List.getElem?_append, h₁, h₂, h₃, h₄]
  rw [ofGroups?, if_pos ⟨by simp [h₁, h₂, h₃, h₄, h₅], hhyphens⟩]
  have hg₁ := filter_zipIdx g₁ 0 (by rw [h₁]; decide)
  have hg₂ := filter_zipIdx g₂ 9 (by rw [h₂]; decide)
  have hg₃ := filter_zipIdx g₃ 14 (by rw [h₃]; decide)
  have hg₄ := filter_zipIdx g₄ 19 (by rw [h₄]; decide)
  have hg₅ := filter_zipIdx g₅ 24 (by rw [h₅]; decide)
  have hmark : ∀ i ∈ hyphens, ∀ s : List (Char × Nat),
      (('-', i) :: s).filter (fun p => !hyphens.contains p.2) = s.filter fun p => !hyphens.contains p.2 := by
    intro i hi s
    rw [List.filter_cons_of_neg]
    simpa using hi
  simp only [List.zipIdx_append, List.zipIdx_cons, List.filter_append, List.map_append, h₁, h₂, h₃, h₄,
    Nat.reduceAdd, hg₁, hg₂, hg₃, hg₄, hg₅, hmark 8 (by decide), hmark 13 (by decide), hmark 18 (by decide),
    hmark 23 (by decide)]

theorem length_hex (bs : Bytes) : bs.hex.toList.length = 2 * bs.length := by
  rw [Bytes.hex, String.toList_ofList]
  induction bs with
  | nil => rfl
  | cons b bs ih =>
    simp only [List.flatMap_cons, List.length_append, List.length_cons, List.length_nil, ih]
    omega

theorem utf8Size_of_mem_hex {bs : Bytes} {c : Char} (h : c ∈ bs.hex.toList) : c.utf8Size = 1 := by
  rw [Bytes.hex, String.toList_ofList] at h
  obtain ⟨b, -, hc⟩ := List.mem_flatMap.1 h
  have hb := b.toNat_lt
  obtain rfl | hc := List.mem_cons.1 hc
  · exact utf8Size_hexDigit _ (by omega)
  · obtain rfl := List.mem_singleton.1 hc
    exact utf8Size_hexDigit _ (by omega)

/-- Digits with hyphens between their groups. -/
private def grouped (ds : List Char) : List Char :=
  ds.take 8 ++ '-' :: ((ds.drop 8).take 4 ++ '-' :: ((ds.drop 12).take 4 ++ '-' ::
    ((ds.drop 16).take 4 ++ '-' :: (ds.drop 20).take 12)))

private theorem ofGroups?_grouped {ds : List Char} (h : ds.length = 32) :
    ofGroups? (grouped ds) = (Bytes.ofHexDigits? ds).map Uuid.mk := by
  have hlast : (ds.drop 20).take 12 = ds.drop 20 := List.take_of_length_le (by simp [h])
  have hstep : ∀ i : Nat, (ds.drop i).take 4 ++ ds.drop (i + 4) = ds.drop i := by
    intro i
    rw [← List.drop_drop, List.take_append_drop]
  rw [grouped, ofGroups?_groups (by simp [h]) (by simp [h]) (by simp [h]) (by simp [h]) (by simp [h]), hlast, hstep 16,
    hstep 12, hstep 8, List.take_append_drop]

private theorem size_grouped {ds : List Char} (h : ds.length = 32) (one : ∀ c ∈ ds, c.utf8Size = 1) :
    size (grouped ds) = 36 := by
  have hone : ∀ c ∈ grouped ds, c.utf8Size = 1 := by
    intro c hc
    have hmark : ('-').utf8Size = 1 := rfl
    have hgroup : ∀ i n, c ∈ (ds.drop i).take n → c.utf8Size = 1 :=
      fun i n hmem => one c (List.mem_of_mem_drop (List.mem_of_mem_take hmem))
    simp only [grouped, List.mem_append, List.mem_cons] at hc
    obtain hc | rfl | hc | rfl | hc | rfl | hc | rfl | hc := hc
    · exact one c (List.mem_of_mem_take hc)
    all_goals first | exact hmark | exact hgroup _ _ hc
  rw [size_eq_length hone]
  simp [grouped, h]

/-- An identifier is read from its text. -/
theorem parse_text {u : Uuid} (h : u.bytes.length = 16) : parse u.text = .ok u := by
  have hlength : u.bytes.hex.toList.length = 32 := by rw [length_hex, h]
  have htext : u.text.toList = grouped u.bytes.hex.toList := by simp [text, grouped]
  have hsize := size_grouped hlength fun c => utf8Size_of_mem_hex
  have hread := ofGroups?_grouped hlength
  rw [← htext] at hsize hread
  rw [Bytes.ofHexDigits?_hex] at hread
  rw [parse]
  simp only [hsize, hread]
  rfl

end SeriesRegion.Uuid
