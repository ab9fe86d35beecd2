import SeriesRegion.Proofs.Json.Members
import Mathlib.Data.List.Nodup

/-!
# Values that are given by objects

An object gives a value under a name if one of its members has this name, and the value is written there (`Json.Gives`).
What is read of such an object has the values that are given, and what was there before where none is given
(`Json.Record.foldl_given`).  An object that gives a field twice is refused (`Json.Record.refuses_of_twice`), even if it gives
the same value both times.
-/

namespace SeriesRegion

namespace Json

variable {α β : Type} {name : String} {ms : List (String × List Char)} {s : List Char}

/-- A text in quotes, with any escapes. -/
def WritesText (v : String) (s : List Char) : Prop := ∃ body, Spelling v body ∧ s = '"' :: (body ++ ['"'])

/-- The digits of a number. -/
def WritesNat (n : Nat) (s : List Char) : Prop := s = (toString n).toList

def WritesBool (v : Bool) (s : List Char) : Prop := s = (toString v).toList

/-- Of the members of an object there is one of this name if a value is given, with the value, and else none. -/
def Gives (writes : β → List Char → Prop) (name : String) (ms : List (String × List Char)) : Option β → Prop
  | none => ∀ m ∈ ms, m.1 ≠ name
  | some v => ∃ s, writes v s ∧ ms.filter (·.1 = name) = [(name, s)]

theorem readText_spells {v : String} (h : WritesText v s) (expected : String) : Spells (readText expected) s v := by
  obtain ⟨body, hbody, rfl⟩ := h
  intro blanks rest hblanks _
  rw [readText, readString, skipBlanks_append hblanks, List.cons_append, skipBlanks_cons rfl]
  simp only [List.append_assoc, List.singleton_append, stringTail_quotes hbody, String.ofList_toList, if_true]

theorem readNat_writes {n limit : Nat} (h : WritesNat n s) (bound : n ≤ limit) (word : n ≤ maxWord) (expected : String) :
    Spells (readNat limit expected) s n := by
  rw [h]
  exact readNat_spells bound word expected

theorem readBool_spells {v : Bool} (h : WritesBool v s) : Spells readBool s v := by
  subst h
  intro blanks rest hblanks _
  rw [readBool, skipBlanks_append hblanks]
  cases v <;> rfl

variable {writes : β → List Char → Prop} {given : Option β}

theorem Gives.stored (h : Gives writes name ms given) {m : String × List Char} (hm : m ∈ ms) (hname : m.1 = name) :
    ∃ v, given = some v ∧ writes v m.2 := by
  cases given with
  | none => exact absurd hname (h m hm)
  | some v =>
    obtain ⟨s, hs, hfilter⟩ := h
    have hmem : m ∈ ms.filter (·.1 = name) := List.mem_filter.2 ⟨hm, decide_eq_true hname⟩
    rw [hfilter, List.mem_singleton] at hmem
    rw [hmem]
    exact ⟨v, rfl, hs⟩

/-- The value of a field is read from the member that gives it. -/
theorem Gives.read {γ : Type} {reader : Reader γ} {value : β → γ} {store : α → γ → α} {a c : α} {required : Bool}
    {m : String × List Char} (h : Gives writes name ms given) (hm : m ∈ ms) (hname : m.1 = name)
    (reads : ∀ v s, writes v s → Spells reader s (value v)) (stores : ∀ v, given = some v → store a (value v) = c) :
    Spells ((Field.of name required reader store).update a) m.2 c := by
  obtain ⟨v, hv, hwrites⟩ := h.stored hm hname
  rw [← stores v hv]
  exact (reads v m.2 hwrites).store name required store a

theorem Gives.count_le (h : Gives writes name ms given) : (ms.map (·.1)).count name ≤ 1 := by
  have hcount : (ms.map (·.1)).count name = (ms.filter (·.1 = name)).length := by
    rw [List.count_eq_countP, List.countP_map, List.countP_eq_length_filter]
    rfl
  rw [hcount]
  cases given with
  | none =>
    have hnil : ms.filter (·.1 = name) = [] := List.filter_eq_nil_iff.2 fun m hm => by simpa using h m hm
    rw [hnil]
    exact Nat.zero_le 1
  | some v =>
    obtain ⟨s, -, hfilter⟩ := h
    rw [hfilter]
    exact Nat.le_refl 1

theorem Gives.isSome_of_mem (h : Gives writes name ms given) : name ∈ ms.map (·.1) ↔ given.isSome := by
  cases given with
  | none =>
    simp only [List.mem_map, Option.isSome_none, Bool.false_eq_true, iff_false, not_exists, not_and]
    exact h
  | some v =>
    obtain ⟨s, -, hfilter⟩ := h
    have hmem : (name, s) ∈ ms.filter (·.1 = name) := by rw [hfilter]; exact List.mem_singleton_self _
    exact iff_of_true (List.mem_map.2 ⟨_, (List.mem_filter.1 hmem).1, rfl⟩) rfl

namespace Record

variable {r : Record α} {f : Field α} {effect : String → α → α} {names : List String}

theorem mem_of_field? (h : r.field? name = some f) : f ∈ r.fields ∧ f.name = name := by
  have hname := List.find?_some h
  exact ⟨List.mem_of_find?_eq_some h, of_decide_eq_true hname⟩

theorem isSome_field? : (r.field? name).isSome ↔ name ∈ r.fields.map (·.name) := by
  rw [field?, List.find?_isSome, List.mem_map]
  simp only [decide_eq_true_eq]

theorem not_mem_of_field? (h : r.field? name = none) : name ∉ r.fields.map (·.name) := by
  rw [← isSome_field?, h]
  exact Bool.false_ne_true

theorem mem_known : name ∈ r.known ms ↔ name ∈ ms.map (·.1) ∧ name ∈ r.fields.map (·.name) := by
  rw [known, List.mem_filter, isSome_field?]

theorem nodup_known (h : ∀ f ∈ r.fields, (ms.map (·.1)).count f.name ≤ 1) : (r.known ms).Nodup := by
  rw [List.nodup_iff_count_le_one]
  intro name
  by_cases hname : name ∈ r.known ms
  · obtain ⟨f, hf, rfl⟩ := List.mem_map.1 (mem_known.1 hname).2
    exact Nat.le_trans (List.filter_sublist.count_le _) (h f hf)
  · exact Nat.le_trans (Nat.le_of_eq (List.count_eq_zero.2 hname)) (Nat.zero_le 1)

/-- What effects leave of a part of a record that only the effect of one name changes. -/
theorem foldl_effect (part : α → β) {v : β} (others : ∀ other ≠ name, ∀ a, part (effect other a) = part a)
    (sets : ∀ a, part (effect name a) = v) (names : List String) (a : α) :
    part (names.foldl (fun a name => effect name a) a) = if name ∈ names then v else part a := by
  induction names generalizing a with
  | nil => rfl
  | cons other names ih =>
    rw [List.foldl_cons, ih]
    by_cases hname : other = name
    · subst hname
      simp [sets]
    · simp [others other hname, Ne.symm hname]

/-- A part of a record that has been read is the value that is given, or else what it was. -/
theorem foldl_given {γ : Type} (part : α → γ) {v : γ} {a : α} (h : Gives writes name ms given)
    (field : name ∈ r.fields.map (·.name)) (others : ∀ other ≠ name, ∀ c, part (effect other c) = part c)
    (sets : ∀ c, part (effect name c) = v) (absent : given = none → part a = v) :
    part ((r.known ms).foldl (fun a name => effect name a) a) = v := by
  have hknown : name ∈ r.known ms ↔ given.isSome := by rw [mem_known, and_iff_left field, h.isSome_of_mem]
  rw [foldl_effect part others sets]
  cases given with
  | none => rw [absent rfl, ite_self]
  | some v => exact if_pos (hknown.2 rfl)

end Record

/-! ### What is given twice -/

/-- One of these names is that of two members. -/
def Twice (names : List String) (ms : List (String × List Char)) : Prop := ∃ name ∈ names, 1 < (ms.map (·.1)).count name

/-- A reader refuses a value, wherever it stands. -/
def Refuses (r : Reader α) (s : List Char) : Prop :=
  ∀ b rest p, AreBlanks b → Ends rest → r (b ++ (s ++ rest)) ≠ .ok p

theorem Refuses.store {reader : Reader β} (h : Refuses reader s) (name : String) (required : Bool) (store : α → β → α)
    (a : α) : Refuses ((Field.of name required reader store).update a) s := by
  intro b rest p blanks ends hread
  change (reader (b ++ (s ++ rest))).map _ = _ at hread
  cases hr : reader (b ++ (s ++ rest)) with
  | error e =>
    rw [hr] at hread
    cases hread
  | ok q => exact h b rest q blanks ends hr

namespace Record

variable {r : Record α} {f : Field α} {m : String × List Char}

/-- An object that gives a field twice is refused. -/
theorem refuses_of_twice (object : IsObject Spelling ms s) (values : ∀ m ∈ ms, IsValue m.2) (exact : r.HasExactFields)
    (twice : Twice (r.fields.map (·.name)) ms) (a : α) : Refuses (r.read a) s := by
  rintro b rest ⟨c, s'⟩ blanks - hread
  obtain ⟨name, hfield, hcount⟩ := twice
  have honce := List.nodup_iff_count_le_one.1 (accepts_of_read object values exact blanks hread).once name
  have hknown : (r.field? name).isSome = true := isSome_field?.2 hfield
  rw [known, List.count_filter (p := fun name => (r.field? name).isSome) hknown] at honce
  exact absurd hcount (Nat.not_lt.2 honce)

/-- An object is refused if the value of a field is. -/
theorem refuses_of_member (object : IsObject Spelling ms s) (values : ∀ m ∈ ms, IsValue m.2) (exact : r.HasExactFields)
    (hm : m ∈ ms) (field : r.field? m.1 = some f) (refuses : ∀ a, Refuses (f.update a) m.2) (a : α) :
    Refuses (r.read a) s := by
  rintro b rest ⟨c, s'⟩ blanks - hread
  obtain ⟨b', rest', a', a'', blanks', ends', hupdate⟩ :=
    (accepts_of_read object values exact blanks hread).stored m hm f field
  exact refuses a' b' rest' _ blanks' ends' hupdate

end Record

/-! ### Documents -/

variable {b b' : List Char} {text : String}

theorem ends_of_blanks (h : AreBlanks b) : Ends b := by
  rw [← List.append_nil b]
  exact ends_blanks h fun c tail hnil => by cases hnil

/-- A document that spells a value is read with it. -/
theorem readDocument_of_spells {r : Reader α} {a : α} (h : Spells r s a) (blanks : AreBlanks b) (blanks' : AreBlanks b')
    (document : text.toList = b ++ (s ++ b')) : readDocument r text = .ok a := by
  have hend : skipBlanks b' = [] := by
    rw [← List.append_nil b', skipBlanks_append blanks']
    rfl
  rw [readDocument, document]
  simp only [h b b' blanks (ends_of_blanks blanks'), hend]

theorem readDocument_of_refuses {r : Reader α} (h : Refuses r s) (blanks : AreBlanks b) (blanks' : AreBlanks b')
    (document : text.toList = b ++ (s ++ b')) : ∃ fault, readDocument r text = .error fault := by
  rw [readDocument, document]
  cases hread : r (b ++ (s ++ b')) with
  | error e => exact ⟨_, rfl⟩
  | ok p => exact absurd hread (h b b' p blanks (ends_of_blanks blanks'))

end Json

end SeriesRegion
