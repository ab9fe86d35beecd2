import SeriesRegion.SortedMap.Search

/-!
# Sorted maps

A finite map kept as an array of pairs with strictly ascending keys, so that two maps are equal exactly when they
hold the same pairs and walking a map visits its keys in order.  A key is found by halves; what an operation does is
said by the list of the pairs.

* `SortedMap.get?_insert`: an insertion is seen at its own key and nowhere else;
* `SortedMap.get?_erase`: an erasure likewise;
* `SortedMap.alter_eq_insert`: changing a value is inserting the changed value;
* `SortedMap.ext_get?`: a map is determined by what it answers.
-/

namespace SeriesRegion

/-- A finite map whose pairs stand by strictly ascending key. -/
structure SortedMap (κ ν : Type) [Ord κ] where
  cells : Array (κ × ν)
  ascending : cells.toList.Pairwise fun a b => compare a.1 b.1 = .lt

namespace SortedMap

variable {κ ν : Type} [Ord κ]

instance [DecidableEq κ] [DecidableEq ν] : DecidableEq (SortedMap κ ν) := fun a b =>
  decidable_of_iff (a.cells = b.cells) ⟨fun h => by cases a; cases b; cases h; rfl, fun h => h ▸ rfl⟩

def entries (m : SortedMap κ ν) : List (κ × ν) := m.cells.toList

instance [Repr κ] [Repr ν] : Repr (SortedMap κ ν) := ⟨fun m n => reprPrec m.entries n⟩

theorem ext_entries {a b : SortedMap κ ν} (h : a.entries = b.entries) : a = b := by
  obtain ⟨x, hx⟩ := a
  obtain ⟨y, hy⟩ := b
  cases (Array.toList_inj.1 h : x = y)
  rfl

def empty : SortedMap κ ν := ⟨#[], .nil⟩

instance : EmptyCollection (SortedMap κ ν) := ⟨empty⟩

instance : Inhabited (SortedMap κ ν) := ⟨empty⟩

/-! ### Lists of pairs -/

def lookup (k : κ) : List (κ × ν) → Option ν
  | [] => none
  | (k', v) :: rest => if compare k k' = .eq then some v else lookup k rest

/-- Puts a pair at its place, in the stead of a pair with the same key. -/
def place (k : κ) (v : ν) : List (κ × ν) → List (κ × ν)
  | [] => [(k, v)]
  | (k', v') :: rest =>
    match compare k k' with
    | .lt => (k, v) :: (k', v') :: rest
    | .eq => (k, v) :: rest
    | .gt => (k', v') :: place k v rest

theorem mem_place {k : κ} {v : ν} {l : List (κ × ν)} {p : κ × ν} (h : p ∈ place k v l) :
    p = (k, v) ∨ p ∈ l := by
  induction l with
  | nil => simpa [place] using h
  | cons q l ih =>
    obtain ⟨k', v'⟩ := q
    unfold place at h
    split at h
    · simpa using h
    · simp only [List.mem_cons] at h ⊢
      rcases h with h | h
      · exact .inl h
      · exact .inr (.inr h)
    · simp only [List.mem_cons] at h ⊢
      rcases h with h | h
      · exact .inr (.inl h)
      · exact (ih h).imp id .inr

theorem length_place_le (k : κ) (v : ν) (l : List (κ × ν)) : (place k v l).length ≤ l.length + 1 := by
  induction l with
  | nil => exact Nat.le_refl _
  | cons q l ih =>
    obtain ⟨k', v'⟩ := q
    unfold place
    split
    · exact Nat.le_refl _
    · exact Nat.le_succ _
    · exact Nat.succ_le_succ ih

theorem place_ascending [Std.TransOrd κ] [Std.LawfulEqOrd κ] (k : κ) (v : ν) {l : List (κ × ν)}
    (h : l.Pairwise fun a b => compare a.1 b.1 = .lt) :
    (place k v l).Pairwise fun a b => compare a.1 b.1 = .lt := by
  induction l with
  | nil => simp [place]
  | cons q l ih =>
    obtain ⟨k', v'⟩ := q
    rw [List.pairwise_cons] at h
    unfold place
    split
    · rename_i hk
      rw [List.pairwise_cons, List.pairwise_cons]
      refine ⟨?_, h⟩
      intro p hp
      rcases List.mem_cons.1 hp with rfl | hp
      · exact hk
      · exact Std.TransCmp.lt_trans hk (h.1 p hp)
    · rename_i hk
      cases Std.LawfulEqOrd.eq_of_compare hk
      rw [List.pairwise_cons]
      exact h
    · rename_i hk
      rw [List.pairwise_cons]
      refine ⟨?_, ih h.2⟩
      intro p hp
      rcases mem_place hp with rfl | hp
      · exact Std.OrientedCmp.lt_of_gt hk
      · exact h.1 p hp

theorem lookup_place [Std.TransOrd κ] [Std.LawfulEqOrd κ] (k k' : κ) (v : ν) (l : List (κ × ν)) :
    lookup k' (place k v l) = if compare k' k = .eq then some v else lookup k' l := by
  induction l with
  | nil => rfl
  | cons q l ih =>
    obtain ⟨j, w⟩ := q
    unfold place
    split
    · rfl
    · rename_i hk
      cases Std.LawfulEqOrd.eq_of_compare hk
      simp only [lookup]
      split <;> rfl
    · rename_i hk
      simp only [lookup, ih]
      split
      · rename_i h₁
        cases Std.LawfulEqOrd.eq_of_compare h₁
        rw [if_neg]
        rw [Std.OrientedOrd.eq_swap, hk]
        decide
      · rfl

theorem lookup_eq_none_of_lt [Std.TransOrd κ] {k : κ} {l : List (κ × ν)}
    (h : ∀ p ∈ l, compare k p.1 = .lt) : lookup k l = none := by
  induction l with
  | nil => rfl
  | cons q l ih =>
    have := h q (by simp)
    simp only [lookup, this]
    exact ih fun p hp => h p (by simp [hp])

theorem mem_iff_lookup [Std.TransOrd κ] [Std.LawfulEqOrd κ] {k : κ} {v : ν} {l : List (κ × ν)}
    (h : l.Pairwise fun a b => compare a.1 b.1 = .lt) : (k, v) ∈ l ↔ lookup k l = some v := by
  induction l with
  | nil => simp [lookup]
  | cons q l ih =>
    obtain ⟨j, w⟩ := q
    rw [List.pairwise_cons] at h
    simp only [List.mem_cons, Prod.mk.injEq, lookup]
    split
    · rename_i hk
      cases Std.LawfulEqOrd.eq_of_compare hk
      have : ¬ (k, v) ∈ l := fun hm => by
        have := h.1 _ hm
        simp only [hk] at this
        exact absurd this (by decide)
      simp [this, eq_comm]
    · rename_i hk
      rw [← ih h.2]
      constructor
      · rintro (⟨rfl, -⟩ | hm)
        · exact absurd (Std.ReflOrd.compare_self) hk
        · exact hm
      · exact .inr

/-! ### Finding a place -/

/-- Whether a pair stands before the place of a key. -/
def isBefore (k : κ) (e : κ × ν) : Bool := compare e.1 k = .lt

theorem lookup_append [Std.OrientedOrd κ] {k : κ} {l₁ : List (κ × ν)} (h : ∀ e ∈ l₁, isBefore k e = true)
    (l₂ : List (κ × ν)) : lookup k (l₁ ++ l₂) = lookup k l₂ := by
  induction l₁ with
  | nil => rfl
  | cons e l₁ ih =>
    have he : compare k e.1 = .gt := Std.OrientedCmp.gt_of_lt (by simpa [isBefore] using h e (by simp))
    simp only [List.cons_append, lookup, he]
    exact ih fun e he => h e (by simp [he])

theorem place_append [Std.OrientedOrd κ] {k : κ} {l₁ : List (κ × ν)} (h : ∀ e ∈ l₁, isBefore k e = true)
    (v : ν) (l₂ : List (κ × ν)) : place k v (l₁ ++ l₂) = l₁ ++ place k v l₂ := by
  induction l₁ with
  | nil => rfl
  | cons e l₁ ih =>
    have he : compare k e.1 = .gt := Std.OrientedCmp.gt_of_lt (by simpa [isBefore] using h e (by simp))
    simp only [List.cons_append, place, he]
    rw [ih fun e he => h e (by simp [he])]

/-- In an ascending list the pairs before the place of a key stand in front, and the key itself, if it is there, is
next. -/
theorem parted [Std.TransOrd κ] [Std.LawfulEqOrd κ] (k : κ) {l : List (κ × ν)}
    (h : l.Pairwise fun a b => compare a.1 b.1 = .lt) :
    ∃ l₁ l₂, l = l₁ ++ l₂ ∧ (∀ e ∈ l₁, isBefore k e = true) ∧
      ((∃ v rest, l₂ = (k, v) :: rest ∧ ∀ e ∈ rest, compare k e.1 = .lt) ∨ ∀ e ∈ l₂, compare k e.1 = .lt) := by
  induction l with
  | nil => exact ⟨[], [], rfl, by simp, .inr (by simp)⟩
  | cons e l ih =>
    rw [List.pairwise_cons] at h
    cases hc : compare k e.1 with
    | gt =>
      obtain ⟨l₁, l₂, rfl, h₁, h₂⟩ := ih h.2
      refine ⟨e :: l₁, l₂, rfl, ?_, h₂⟩
      intro f hf
      rcases List.mem_cons.1 hf with rfl | hf
      · simpa [isBefore] using Std.OrientedCmp.lt_of_gt hc
      · exact h₁ f hf
    | eq =>
      cases Std.LawfulEqOrd.eq_of_compare hc
      exact ⟨[], e :: l, rfl, by simp, .inl ⟨e.2, l, rfl, h.1⟩⟩
    | lt =>
      refine ⟨[], e :: l, rfl, by simp, .inr ?_⟩
      intro f hf
      rcases List.mem_cons.1 hf with rfl | hf
      · exact hc
      · exact Std.TransCmp.lt_trans hc (h.1 f hf)

theorem isBefore_eq_false [Std.TransOrd κ] {k : κ} {e : κ × ν} (h : compare k e.1 ≠ .gt) : isBefore k e = false := by
  rw [isBefore, decide_eq_false_iff_not]
  intro hlt
  exact h (Std.OrientedCmp.gt_of_lt hlt)

/-! ### Maps -/

/-- The place of a key: the number of pairs with keys before it. -/
def position (m : SortedMap κ ν) (k : κ) : Nat := Search.frontier (isBefore k) m.cells

/-- Whether the pair at a position has a key. -/
def isAt (m : SortedMap κ ν) (k : κ) (i : Nat) : Bool := m.cells[i]?.any fun e => compare k e.1 = .eq

def get? (m : SortedMap κ ν) (k : κ) : Option ν :=
  let i := m.position k
  if m.isAt k i then m.cells[i]?.map (·.2) else none

def contains (m : SortedMap κ ν) (k : κ) : Bool := (m.get? k).isSome

/-- The keys in ascending order. -/
def keys (m : SortedMap κ ν) : List κ := m.entries.map (·.1)

def values (m : SortedMap κ ν) : List ν := m.entries.map (·.2)

def size (m : SortedMap κ ν) : Nat := m.cells.size

/-- The pairs after a change of the value under a key. -/
def altered (m : SortedMap κ ν) (k : κ) (f : Option ν → ν) : Array (κ × ν) :=
  let i := m.position k
  if m.isAt k i then m.cells.modify i fun e => (e.1, f (some e.2)) else m.cells.insertIdxIfInBounds i (k, f none)

theorem toList_insertIdxIfInBounds {α : Type} {cells : Array α} {l₁ l₂ : List α} (h : cells.toList = l₁ ++ l₂)
    (a : α) : (cells.insertIdxIfInBounds l₁.length a).toList = l₁ ++ a :: l₂ := by
  have insertIdx_append : ∀ l : List α, (l ++ l₂).insertIdx l.length a = l ++ a :: l₂ := by
    intro l
    induction l with
    | nil => simp
    | cons b l ih => simpa using ih
  have hs : l₁.length ≤ cells.size := by
    rw [← Array.length_toList, h, List.length_append]
    omega
  rw [Array.insertIdxIfInBounds, dif_pos hs, Array.toList_insertIdx, h, insertIdx_append]

/-- The place of a key parts the pairs; if the key is there its pair is the first of the second part. -/
theorem position_parts [Std.TransOrd κ] [Std.LawfulEqOrd κ] (m : SortedMap κ ν) (k : κ) :
    ∃ l₁ l₂, m.cells.toList = l₁ ++ l₂ ∧ (∀ e ∈ l₁, isBefore k e = true) ∧ m.position k = l₁.length ∧
      m.cells[l₁.length]? = l₂.head? ∧
      ((∃ v rest, l₂ = (k, v) :: rest ∧ ∀ e ∈ rest, compare k e.1 = .lt) ∨ ∀ e ∈ l₂, compare k e.1 = .lt) := by
  obtain ⟨l₁, l₂, h, h₁, h₂⟩ := parted k m.ascending
  refine ⟨l₁, l₂, h, h₁, Search.frontier_eq h h₁ ?_, ?_, h₂⟩
  · intro e he
    apply isBefore_eq_false
    rcases h₂ with ⟨v, rest, rfl, h₂⟩ | h₂
    · rcases List.mem_cons.1 he with rfl | he
      · rw [Std.ReflOrd.compare_self]
        decide
      · rw [h₂ e he]
        decide
    · rw [h₂ e he]
      decide
  · rw [← Array.getElem?_toList, h, List.getElem?_append_right (Nat.le_refl _), Nat.sub_self, List.head?_eq_getElem?]

theorem get?_eq_lookup [Std.TransOrd κ] [Std.LawfulEqOrd κ] (m : SortedMap κ ν) (k : κ) :
    m.get? k = lookup k m.entries := by
  obtain ⟨l₁, l₂, h, h₁, hp, hc, h₂⟩ := m.position_parts k
  rw [entries, h, lookup_append h₁, get?, hp, isAt, hc]
  rcases h₂ with ⟨v, rest, rfl, -⟩ | h₂
  · simp [lookup, Std.ReflOrd.compare_self]
  · rw [lookup_eq_none_of_lt h₂]
    cases l₂ with
    | nil => rfl
    | cons e l₂ => simp [h₂ e (by simp)]

theorem toList_altered [Std.TransOrd κ] [Std.LawfulEqOrd κ] (m : SortedMap κ ν) (k : κ) (f : Option ν → ν) :
    (m.altered k f).toList = place k (f (m.get? k)) m.entries := by
  rw [get?_eq_lookup]
  obtain ⟨l₁, l₂, h, h₁, hp, hc, h₂⟩ := m.position_parts k
  rw [entries, h, lookup_append h₁, place_append h₁, altered, hp, isAt, hc]
  rcases h₂ with ⟨v, rest, rfl, -⟩ | h₂
  · have hm : (l₁ ++ (k, v) :: rest).modify l₁.length (fun e => (e.1, f (some e.2))) =
        l₁ ++ (k, f (some v)) :: rest := by
      simp [List.modify_eq_take_drop]
    simp only [List.head?_cons, Option.any_some, Std.ReflOrd.compare_self, decide_true, if_true, lookup, place,
      Array.toList_modify, h, hm]
  · rw [lookup_eq_none_of_lt h₂, if_neg, toList_insertIdxIfInBounds h]
    · cases l₂ with
      | nil => rfl
      | cons e l₂ => simp [place, h₂ e (by simp)]
    · cases l₂ with
      | nil => simp
      | cons e l₂ => simp [h₂ e (by simp)]

/-- Changes the value under a key; one that is not there is added. -/
def alter [Std.TransOrd κ] [Std.LawfulEqOrd κ] (m : SortedMap κ ν) (k : κ) (f : Option ν → ν) : SortedMap κ ν :=
  ⟨m.altered k f, m.toList_altered k f ▸ place_ascending k _ m.ascending⟩

/-- Stores a value under a key, replacing what was there. -/
def insert [Std.TransOrd κ] [Std.LawfulEqOrd κ] (m : SortedMap κ ν) (k : κ) (v : ν) : SortedMap κ ν :=
  m.alter k fun _ => v

/-- Keeps the pairs whose key satisfies `p`. -/
def filterKeys (m : SortedMap κ ν) (p : κ → Bool) : SortedMap κ ν :=
  ⟨m.cells.filter fun e => p e.1, Array.toList_filter ▸ m.ascending.filter _⟩

def erase [DecidableEq κ] (m : SortedMap κ ν) (k : κ) : SortedMap κ ν := m.filterKeys fun k' => k' ≠ k

/-- The map of a list of pairs; of several pairs with one key the last is kept. -/
def ofList [Std.TransOrd κ] [Std.LawfulEqOrd κ] (l : List (κ × ν)) : SortedMap κ ν :=
  l.foldl (fun m p => m.insert p.1 p.2) empty

@[simp] theorem get?_empty (k : κ) : (empty : SortedMap κ ν).get? k = none := rfl

theorem mem_entries [Std.TransOrd κ] [Std.LawfulEqOrd κ] {m : SortedMap κ ν} {k : κ} {v : ν} :
    (k, v) ∈ m.entries ↔ m.get? k = some v := by
  rw [get?_eq_lookup]
  exact mem_iff_lookup m.ascending

theorem nodup_keys [Std.ReflOrd κ] (m : SortedMap κ ν) : m.keys.Nodup := by
  refine List.pairwise_map.2 (m.ascending.imp fun {a b} h hsame => ?_)
  rw [hsame, Std.ReflOrd.compare_self] at h
  cases h

theorem entries_alter [Std.TransOrd κ] [Std.LawfulEqOrd κ] (m : SortedMap κ ν) (k : κ) (f : Option ν → ν) :
    (m.alter k f).entries = place k (f (m.get? k)) m.entries := m.toList_altered k f

theorem get?_alter [Std.TransOrd κ] [Std.LawfulEqOrd κ] [DecidableEq κ] (m : SortedMap κ ν) (k k' : κ)
    (f : Option ν → ν) : (m.alter k f).get? k' = if k' = k then some (f (m.get? k)) else m.get? k' := by
  rw [get?_eq_lookup, entries_alter, lookup_place, ← get?_eq_lookup]
  simp only [Std.LawfulEqCmp.compare_eq_iff_eq]

theorem get?_insert [Std.TransOrd κ] [Std.LawfulEqOrd κ] [DecidableEq κ] (m : SortedMap κ ν) (k k' : κ) (v : ν) :
    (m.insert k v).get? k' = if k' = k then some v else m.get? k' := m.get?_alter k k' fun _ => v

/-- To change a value is to insert the changed value. -/
theorem alter_eq_insert [Std.TransOrd κ] [Std.LawfulEqOrd κ] (m : SortedMap κ ν) (k : κ) (f : Option ν → ν) :
    m.alter k f = m.insert k (f (m.get? k)) := by
  apply ext_entries
  rw [insert, entries_alter, entries_alter]

theorem get?_filterKeys [Std.TransOrd κ] [Std.LawfulEqOrd κ] (m : SortedMap κ ν) (p : κ → Bool) (k : κ) :
    (m.filterKeys p).get? k = if p k then m.get? k else none := by
  apply Option.ext
  intro v
  rw [← mem_entries, entries, filterKeys, Array.toList_filter, List.mem_filter]
  change (k, v) ∈ m.entries ∧ _ ↔ _
  rw [mem_entries]
  split <;> simp_all

theorem get?_erase [Std.TransOrd κ] [Std.LawfulEqOrd κ] [DecidableEq κ] (m : SortedMap κ ν) (k k' : κ) :
    (m.erase k).get? k' = if k' = k then none else m.get? k' := by
  rw [erase, get?_filterKeys]
  by_cases h : k' = k <;> simp [h]

private theorem entries_ext [Std.TransOrd κ] [Std.LawfulEqOrd κ] {l l' : List (κ × ν)}
    (h : l.Pairwise fun a b => compare a.1 b.1 = .lt) (h' : l'.Pairwise fun a b => compare a.1 b.1 = .lt)
    (hmem : ∀ p, p ∈ l ↔ p ∈ l') : l = l' := by
  induction l generalizing l' with
  | nil =>
    cases l' with
    | nil => rfl
    | cons q l' => exact absurd ((hmem q).2 (by simp)) (by simp)
  | cons p l ih =>
    cases l' with
    | nil => exact absurd ((hmem p).1 (by simp)) (by simp)
    | cons q l' =>
      rw [List.pairwise_cons] at h h'
      have irrefl : ∀ {x y : κ}, compare x y = .lt → compare y x = .lt → False := fun a b => by
        rw [Std.OrientedOrd.eq_swap, b] at a
        exact absurd a (by decide)
      have hpq : p = q := by
        rcases List.mem_cons.1 ((hmem p).1 (by simp)) with hp | hp
        · exact hp
        · rcases List.mem_cons.1 ((hmem q).2 (by simp)) with hq | hq
          · exact hq.symm
          · exact (irrefl (h'.1 p hp) (h.1 q hq)).elim
      subst hpq
      congr 1
      refine ih h.2 h'.2 fun x => ⟨fun hx => ?_, fun hx => ?_⟩
      · rcases List.mem_cons.1 ((hmem x).1 (by simp [hx])) with rfl | hx'
        · exact (irrefl (h.1 _ hx) (h.1 _ hx)).elim
        · exact hx'
      · rcases List.mem_cons.1 ((hmem x).2 (by simp [hx])) with rfl | hx'
        · exact (irrefl (h'.1 _ hx) (h'.1 _ hx)).elim
        · exact hx'

/-- Two maps that answer alike are equal. -/
theorem ext_get? [Std.TransOrd κ] [Std.LawfulEqOrd κ] {a b : SortedMap κ ν} (h : ∀ k, a.get? k = b.get? k) :
    a = b := by
  apply ext_entries
  apply entries_ext a.ascending b.ascending
  rintro ⟨k, v⟩
  change (k, v) ∈ a.entries ↔ (k, v) ∈ b.entries
  rw [mem_entries, mem_entries, h]

/-! ### Maps of lists -/

section OfList

variable [Std.TransOrd κ] [Std.LawfulEqOrd κ]

theorem entries_insert (m : SortedMap κ ν) (k : κ) (v : ν) : (m.insert k v).entries = place k v m.entries :=
  m.entries_alter k fun _ => v

/-- Of pairs that are put into a map the last one with a key is seen at it. -/
theorem get?_foldl_insert [DecidableEq κ] (m : SortedMap κ ν) (l : List (κ × ν)) (k : κ) :
    (l.foldl (fun m p => m.insert p.1 p.2) m).get? k = (l.reverse.lookup k).or (m.get? k) := by
  induction l generalizing m with
  | nil => rfl
  | cons p l ih =>
    rw [List.foldl_cons, ih, List.reverse_cons, List.lookup_append, Option.or_assoc, get?_insert, List.lookup_cons]
    by_cases h : k = p.1
    · rw [if_pos h, beq_iff_eq.2 h]
      rfl
    · rw [if_neg h, beq_false_of_ne h]
      rfl

theorem get?_ofList [DecidableEq κ] (l : List (κ × ν)) (k : κ) : (ofList l).get? k = l.reverse.lookup k := by
  rw [ofList, get?_foldl_insert, get?_empty, Option.or_none]

/-- The map of a list has pairs of the list, and no more of them. -/
theorem ofList_le (l : List (κ × ν)) : (∀ p ∈ (ofList l).entries, p ∈ l) ∧ (ofList l).entries.length ≤ l.length := by
  have hfold : ∀ m : SortedMap κ ν, (∀ p ∈ (l.foldl (fun m p => m.insert p.1 p.2) m).entries, p ∈ l ∨ p ∈ m.entries) ∧
      (l.foldl (fun m p => m.insert p.1 p.2) m).entries.length ≤ m.entries.length + l.length := by
    induction l with
    | nil => exact fun m => ⟨fun p hp => .inr hp, Nat.le_refl _⟩
    | cons q l ih =>
      intro m
      obtain ⟨hmem, hlength⟩ := ih (m.insert q.1 q.2)
      rw [entries_insert] at hmem hlength
      refine ⟨fun p hp => ?_, ?_⟩
      · rcases hmem p hp with h | h
        · exact .inl (List.mem_cons_of_mem _ h)
        · rcases mem_place h with rfl | h
          · exact .inl List.mem_cons_self
          · exact .inr h
      · have := length_place_le q.1 q.2 m.entries
        rw [List.foldl_cons, List.length_cons]
        omega
  obtain ⟨hmem, hlength⟩ := hfold empty
  exact ⟨fun p hp => (hmem p hp).resolve_right List.not_mem_nil, Nat.le_trans hlength (Nat.le_of_eq (Nat.zero_add _))⟩

/-- A map is that of its pairs. -/
theorem ofList_entries (m : SortedMap κ ν) : ofList m.entries = m := by
  -- Ascending pairs are put behind those before them.
  have hfold : ∀ (l : List (κ × ν)) (a : SortedMap κ ν),
      ((a.entries ++ l).Pairwise fun p q => compare p.1 q.1 = .lt) →
      (l.foldl (fun a p => a.insert p.1 p.2) a).entries = a.entries ++ l := by
    intro l
    induction l with
    | nil => exact fun a _ => (List.append_nil _).symm
    | cons q l ih =>
      intro a h
      have hbefore : ∀ p ∈ a.entries, isBefore q.1 p = true := fun p hp =>
        decide_eq_true ((List.pairwise_append.1 h).2.2 p hp q List.mem_cons_self)
      have hinsert : (a.insert q.1 q.2).entries = a.entries ++ [q] := by
        have hplace := place_append hbefore q.2 []
        rw [List.append_nil] at hplace
        rw [entries_insert, hplace]
        rfl
      have hrest := ih (a.insert q.1 q.2)
      rw [hinsert, List.append_assoc, List.singleton_append] at hrest
      exact hrest h
  exact ext_entries (hfold m.entries empty m.ascending)

/-- Ascending pairs are the pairs of their map. -/
theorem entries_ofList {l : List (κ × ν)} (h : l.Pairwise fun a b => compare a.1 b.1 = .lt) : (ofList l).entries = l :=
  congrArg entries (ofList_entries ⟨l.toArray, h⟩)

end OfList

end SortedMap

end SeriesRegion
