import SeriesRegion.Proofs.Json.Exact

/-!
# Records that are read from objects

A record is read from an object whatever the order of its members and whatever the blanks between them, with any spelling of
the names, and members that are no fields are skipped (`Json.Record.spells_object`).  If an object is not refused, it has given
each field once at most, and each value has been accepted by the reader of its field (`Json.Record.accepts_of_read`).  Lists
may stand for objects; whatever is made of either, what follows it is left (`Json.Record.exact_read`).
-/

namespace SeriesRegion.Json

variable {α κ : Type} {key : κ → List Char → Prop} {b rest s s' t text : List Char} {m : κ × List Char}

/-- The text of a key between its quotes. -/
def Spelling (name : String) (s : List Char) : Prop := Quotes name.toList s

/-- A member as it is met: after the brace that opens the object, or after the comma behind another member. -/
inductive Leads : (first : Bool) → (text s : List Char) → Prop
  | brace (s : List Char) : Leads true s s
  | comma {b : List Char} (blanks : AreBlanks b) (s : List Char) : Leads false (b ++ ',' :: s) s

/-- A member has a key and, after a colon, its value. -/
theorem IsMember.parts (h : IsMember key m t) (rest : List Char) :
    ∃ b b' s s', AreBlanks b ∧ AreBlanks b' ∧ key m.1 s ∧ t ++ rest = b ++ '"' :: (s ++ '"' :: s') ∧
      Record.colon s' = .ok (b' ++ (m.2 ++ rest)) := by
  obtain @⟨k, s, b, b', b'', v, blanks, hkey, blanks', blanks''⟩ := h
  refine ⟨b, b'', s, b' ++ ':' :: (b'' ++ (v ++ rest)), blanks, blanks'', hkey, by simp, ?_⟩
  rw [Record.colon, skipBlanks_append blanks', skipBlanks_cons rfl]
  rfl

theorem IsObjectTail.length_lt {ms : List (κ × List Char)} (h : IsObjectTail key ms s) : ms.length < s.length := by
  induction h with
  | close =>
    rw [List.length_append]
    exact Nat.lt_add_left _ (Nat.lt_add_one _)
  | comma blanks member more ih =>
    simp only [List.length_append, List.length_cons]
    omega

namespace Record

variable {r : Record α} {f : Field α} {fuel : Nat} {first : Bool} {seen : List String} {a c : α} {effect : String → α → α}

theorem nextKey_leads (h : Leads first text (b ++ '"' :: s)) (blanks : AreBlanks b) : nextKey first text = .ok (some s) := by
  cases h with
  | brace =>
    rw [nextKey, skipBlanks_append blanks, skipBlanks_cons rfl]
    rfl
  | comma blanks' =>
    rw [nextKey, skipBlanks_append blanks', skipBlanks_cons rfl]
    simp only [skipBlanks_append blanks, skipBlanks_cons (c := '"') rfl]
    rfl

theorem nextKey_close (blanks : AreBlanks b) (first : Bool) (s : List Char) :
    nextKey first (b ++ '}' :: s) = .ok none ∧ afterRefusal (b ++ '}' :: s) = s := by
  constructor
  · rw [nextKey, skipBlanks_append blanks, skipBlanks_cons rfl]
    rfl
  · rw [afterRefusal, skipBlanks_append blanks, skipBlanks_cons rfl]
    rfl

/-- The field of a name. -/
def field? (r : Record α) (name : String) : Option (Field α) := r.fields.find? (·.name = name)

/-- The names of the members that are fields, in their order. -/
def known (r : Record α) (ms : List (String × List Char)) : List String :=
  (ms.map (·.1)).filter fun name => (r.field? name).isSome

theorem known_cons_of_none {m : String × List Char} (h : r.field? m.1 = none) (ms : List (String × List Char)) :
    r.known (m :: ms) = r.known ms := by
  rw [known, List.map_cons, List.filter_cons_of_neg (by simp [h]), known]

theorem known_cons_of_some {m : String × List Char} (h : r.field? m.1 = some f) (ms : List (String × List Char)) :
    r.known (m :: ms) = m.1 :: r.known ms := by
  rw [known, List.map_cons, List.filter_cons_of_pos (by simp [h]), known]

/-! ### Objects that are read -/

/-- A member that is no field is skipped. -/
theorem members_unknown {s₁ s₂ s₃ s₄ name : List Char} (next : nextKey first s₁ = .ok (some s₂))
    (key : stringTail s₂ = .ok (name, s₃)) (unknown : r.field? (String.ofList name) = none) (colon : colon s₃ = .ok s₄)
    (value : skipValue s₄ = .ok rest) : r.members (fuel + 1) first seen a s₁ = r.members fuel false seen a rest := by
  rw [field?] at unknown
  rw [members, next]
  simp only [key, unknown, colon, value]

section Reading

variable {m : String × List Char} {ms : List (String × List Char)}

theorem members_skip (member : IsMember Spelling m t) (leads : Leads first text (t ++ rest)) (unknown : r.field? m.1 = none)
    (value : IsValue m.2) (ends : Ends rest) :
    r.members (fuel + 1) first seen a text = r.members fuel false seen a rest := by
  obtain ⟨b, b', s, s', blanks, blanks', hname, htext, hcolon⟩ := member.parts rest
  rw [htext] at leads
  exact members_unknown (nextKey_leads leads blanks) (stringTail_quotes hname s') (by rwa [String.ofList_toList]) hcolon
    (skipValue_append value blanks' ends)

theorem members_store (member : IsMember Spelling m t) (leads : Leads first text (t ++ rest)) (field : r.field? m.1 = some f)
    (unseen : m.1 ∉ seen) (value : Spells (f.update a) m.2 c) (ends : Ends rest) :
    r.members (fuel + 1) first seen a text = r.members fuel false (m.1 :: seen) c rest := by
  obtain ⟨b, b', s, s', blanks, blanks', hname, htext, hcolon⟩ := member.parts rest
  rw [htext] at leads
  have hmember := members_known fuel (nextKey_leads leads blanks) (stringTail_quotes hname s')
    (by rwa [String.ofList_toList]) (by rwa [String.ofList_toList]) hcolon (value b' rest blanks' ends)
  rwa [String.ofList_toList] at hmember

/-- The values of the members can be read: `effect` says what each field does to the record. -/
structure Readable (r : Record α) (effect : String → α → α) (ms : List (String × List Char)) : Prop where
  skipped : ∀ m ∈ ms, r.field? m.1 = none → IsValue m.2
  stored : ∀ m ∈ ms, ∀ f, r.field? m.1 = some f → ∀ a, Spells (f.update a) m.2 (effect m.1 a)
  once : (r.known ms).Nodup

/-- What has been read of a record, and what is left to be read, when a member has been read. -/
theorem members_step (member : IsMember Spelling m t) (leads : Leads first text (t ++ rest)) (ends : Ends rest)
    (readable : r.Readable effect (m :: ms)) (unseen : ∀ name ∈ r.known (m :: ms), name ∉ seen) (fuel : Nat) (a : α) :
    ∃ seen' a', r.members (fuel + 1) first seen a text = r.members fuel false seen' a' rest ∧
      (r.known (m :: ms)).foldl (fun a name => effect name a) a = (r.known ms).foldl (fun a name => effect name a) a' ∧
      r.Readable effect ms ∧ (∀ name ∈ r.known ms, name ∉ seen') ∧
      ∀ name, name ∈ seen ∨ name ∈ r.known (m :: ms) → name ∈ seen' ∨ name ∈ r.known ms := by
  obtain ⟨hskipped, hms⟩ := List.forall_mem_cons.1 readable.skipped
  obtain ⟨hstored, hmore⟩ := List.forall_mem_cons.1 readable.stored
  have honce := readable.once
  cases hfield : r.field? m.1 with
  | none =>
    rw [known_cons_of_none hfield] at unseen honce ⊢
    exact ⟨seen, a, members_skip member leads hfield (hskipped hfield) ends, rfl, ⟨hms, hmore, honce⟩, unseen,
      fun _ => id⟩
  | some f =>
    rw [known_cons_of_some hfield] at unseen honce ⊢
    obtain ⟨hname, hnames⟩ := List.forall_mem_cons.1 unseen
    obtain ⟨hnew, hknown⟩ := List.nodup_cons.1 honce
    refine ⟨m.1 :: seen, effect m.1 a, members_store member leads hfield hname (hstored f hfield a) ends, rfl,
      ⟨hms, hmore, hknown⟩, fun name hmem => ?_, fun name => ?_⟩
    · rintro (_ | ⟨_, hseen⟩)
      · exact hnew hmem
      · exact hnames name hmem hseen
    · rintro (hseen | hmem)
      · exact .inl (List.mem_cons_of_mem _ hseen)
      · obtain rfl | hmem := List.mem_cons.1 hmem
        · exact .inl List.mem_cons_self
        · exact .inr hmem

theorem members_close (blanks : AreBlanks b) (given : ∀ f ∈ r.fields, f.required = true → f.name ∈ seen) (rest : List Char) :
    r.members (fuel + 1) first seen a (b ++ '}' :: rest) = .ok (a, rest) := by
  obtain ⟨hnext, hrest⟩ := nextKey_close blanks first rest
  rw [members_end hnext given, hrest]

/-- The members that follow another one are read, up to the end of the object. -/
theorem members_tail (tail : IsObjectTail Spelling ms s) (readable : r.Readable effect ms)
    (unseen : ∀ name ∈ r.known ms, name ∉ seen)
    (given : ∀ f ∈ r.fields, f.required = true → f.name ∈ seen ∨ f.name ∈ r.known ms) (enough : ms.length < fuel)
    (a : α) (rest : List Char) :
    r.members fuel false seen a (s ++ rest) = .ok ((r.known ms).foldl (fun a name => effect name a) a, rest) := by
  induction tail generalizing fuel seen a with
  | close blanks =>
    obtain ⟨fuel, rfl⟩ := Nat.exists_eq_add_one_of_ne_zero (Nat.ne_zero_of_lt enough)
    rw [List.append_assoc]
    exact members_close blanks (fun f hf hrequired => (given f hf hrequired).resolve_right List.not_mem_nil) rest
  | @comma b t s m ms blanks member more ih =>
    obtain ⟨fuel, rfl⟩ := Nat.exists_eq_add_one_of_ne_zero (Nat.ne_zero_of_lt enough)
    have hleads : Leads false (b ++ ',' :: (t ++ s) ++ rest) (t ++ (s ++ rest)) := by
      rw [List.append_assoc, List.cons_append, List.append_assoc]
      exact .comma blanks _
    obtain ⟨seen', a', hstep, hfold, hreadable, hunseen, hgiven⟩ :=
      members_step member hleads (more.ends rest) readable unseen fuel a
    rw [hstep, hfold]
    exact ih hreadable hunseen (fun f hf hrequired => hgiven _ (given f hf hrequired)) (Nat.lt_of_succ_lt_succ enough) a'

/-- A record is read from an object if each of its fields is there once at most and its value can be read, whatever the order
of the members and whatever other members there are. -/
theorem spells_object (object : IsObject Spelling ms s) (readable : r.Readable effect ms)
    (given : ∀ f ∈ r.fields, f.required = true → f.name ∈ r.known ms) (a : α) :
    Spells (r.read a) s ((r.known ms).foldl (fun a name => effect name a) a) := by
  intro b rest blanks _
  cases object with
  | @empty b' blanks' =>
    rw [read, skipBlanks_append blanks, List.cons_append, skipBlanks_cons rfl, List.append_assoc]
    exact members_close blanks' (fun f hf hrequired => absurd (given f hf hrequired) List.not_mem_nil) rest
  | @members t s m ms member more =>
    rw [read, skipBlanks_append blanks, List.cons_append, skipBlanks_cons rfl, List.append_assoc]
    obtain ⟨seen', a', hstep, hfold, hreadable, hunseen, hgiven⟩ :=
      members_step member (.brace _) (more.ends rest) readable (fun _ _ => List.not_mem_nil) (t ++ (s ++ rest)).length a
    rw [hfold]
    refine hstep.trans
      (members_tail more hreadable hunseen (fun f hf hrequired => hgiven _ (.inr (given f hf hrequired))) ?_ a' rest)
    have hlength := more.length_lt
    simp only [List.length_append]
    omega

end Reading

/-! ### Objects that are not refused -/

/-- How a member with this value has been read: it was skipped, or stored in its field, which had not been given before. -/
inductive Took (r : Record α) (v rest : List Char) (name : String) (seen : List String) (a : α) : List String → α → Prop
  | skipped (unknown : r.field? name = none) : Took r v rest name seen a seen a
  | stored {f : Field α} {b : List Char} {a' : α} (field : r.field? name = some f) (unseen : name ∉ seen)
    (blanks : AreBlanks b) (value : f.update a (b ++ (v ++ rest)) = .ok (a', rest)) :
    Took r v rest name seen a (name :: seen) a'

/-- The fields of a record leave what follows their values. -/
def HasExactFields (r : Record α) : Prop := ∀ f ∈ r.fields, ∀ a, Exact (f.update a)

/-- If an object is not refused, none of its members is. -/
theorem members_ok (member : IsMember key m t) (bodies : ∀ k s, key k s → IsBody s) (leads : Leads first text (t ++ rest))
    (ends : Ends rest) (value : IsValue m.2) (exact : r.HasExactFields)
    (h : r.members fuel first seen a text = .ok (c, s')) :
    ∃ fuel' s name seen' a', key m.1 s ∧ (∃ s', stringTail (s ++ '"' :: s') = .ok (name, s')) ∧
      r.Took m.2 rest (String.ofList name) seen a seen' a' ∧ r.members fuel' false seen' a' rest = .ok (c, s') := by
  obtain ⟨b, b', s, s₁, blanks, blanks', hkey, htext, hcolon⟩ := member.parts rest
  rw [htext] at leads
  cases fuel with
  | zero =>
    rw [members] at h
    cases h
  | succ fuel =>
    rw [members, nextKey_leads leads blanks] at h
    simp only at h
    split at h
    · cases h
    · rename_i name s₂ hname
      obtain rfl : s₁ = s₂ := by
        have hskip := skipString_of_stringTail hname
        rw [skipString_body (bodies _ _ hkey)] at hskip
        exact Except.ok.inj hskip
      refine ⟨fuel, s, name, ?_⟩
      split at h
      · rename_i hfield
        simp only [hcolon, skipValue_append value blanks' ends] at h
        exact ⟨seen, a, hkey, ⟨s₁, hname⟩, .skipped hfield, h⟩
      · rename_i f hfield
        split at h
        · cases h
        · rename_i hseen
          rw [List.contains_iff_mem] at hseen
          simp only [hcolon] at h
          cases hupdate : f.update a (b' ++ (m.2 ++ rest)) with
          | error e =>
            rw [hupdate] at h
            cases h
          | ok p =>
            obtain ⟨a', s₃⟩ := p
            obtain rfl : s₃ = rest := exact f (List.mem_of_find?_eq_some hfield) a _ value b' rest a' s₃ blanks' ends hupdate
            rw [hupdate] at h
            exact ⟨_, a', hkey, ⟨s₁, hname⟩, .stored hfield hseen blanks' hupdate, h⟩

theorem rest_of_members_close (blanks : AreBlanks b) (h : r.members fuel first seen a (b ++ '}' :: rest) = .ok (c, s')) :
    s' = rest := by
  obtain ⟨hnext, hrest⟩ := nextKey_close blanks first rest
  cases fuel with
  | zero =>
    rw [members] at h
    cases h
  | succ fuel =>
    rw [members, hnext] at h
    simp only [hrest] at h
    split at h
    · cases h
    · cases h
      rfl

/-- Whatever is made of an object, what follows it is left. -/
theorem rest_of_members_tail {ms : List (Unit × List Char)} (tail : IsObjectTail (fun _ => IsBody) ms s)
    (values : ∀ m ∈ ms, IsValue m.2) (exact : r.HasExactFields)
    (h : r.members fuel false seen a (s ++ rest) = .ok (c, s')) : s' = rest := by
  induction tail generalizing fuel seen a with
  | close blanks =>
    rw [List.append_assoc] at h
    exact rest_of_members_close blanks h
  | @comma b t s m ms blanks member more ih =>
    obtain ⟨hm, hms⟩ := List.forall_mem_cons.1 values
    have hleads : Leads false (b ++ ',' :: (t ++ s) ++ rest) (t ++ (s ++ rest)) := by
      rw [List.append_assoc, List.cons_append, List.append_assoc]
      exact .comma blanks _
    obtain ⟨_, _, _, _, _, -, -, -, hrest⟩ :=
      members_ok member (fun _ _ hbody => hbody) hleads (more.ends rest) hm exact h
    exact ih hms hrest

section Named

variable {ms : List (String × List Char)}

/-- The fields that an object gives, if it is not refused: each of them once, with a value that its reader has not refused. -/
structure Accepts (r : Record α) (seen : List String) (ms : List (String × List Char)) : Prop where
  once : (r.known ms).Nodup
  unseen : ∀ name ∈ r.known ms, name ∉ seen
  stored : ∀ m ∈ ms, ∀ f, r.field? m.1 = some f →
    ∃ b rest a a', AreBlanks b ∧ Ends rest ∧ f.update a (b ++ (m.2 ++ rest)) = .ok (a', rest)

theorem accepts_nil (r : Record α) (seen : List String) : r.Accepts seen [] :=
  ⟨List.nodup_nil, List.forall_mem_nil _, List.forall_mem_nil _⟩

theorem Accepts.cons {m : String × List Char} {seen' : List String} {a' : α} (took : r.Took m.2 rest m.1 seen a seen' a')
    (ends : Ends rest) (h : r.Accepts seen' ms) : r.Accepts seen (m :: ms) := by
  cases took with
  | skipped unknown =>
    refine ⟨?_, ?_, List.forall_mem_cons.2 ⟨fun f hf => ?_, h.stored⟩⟩
    · rw [known_cons_of_none unknown]
      exact h.once
    · rw [known_cons_of_none unknown]
      exact h.unseen
    · rw [unknown] at hf
      cases hf
  | @stored f b a' field unseen blanks value =>
    refine ⟨?_, ?_, List.forall_mem_cons.2 ⟨fun f' hf => ?_, h.stored⟩⟩
    · rw [known_cons_of_some field]
      exact List.nodup_cons.2 ⟨fun hmem => h.unseen _ hmem List.mem_cons_self, h.once⟩
    · rw [known_cons_of_some field]
      exact List.forall_mem_cons.2 ⟨unseen, fun name hmem hseen => h.unseen name hmem (List.mem_cons_of_mem _ hseen)⟩
    · obtain rfl := Option.some.inj (field.symm.trans hf)
      exact ⟨b, rest, a, a', blanks, ends, value⟩

theorem accepts_step {m : String × List Char} (member : IsMember Spelling m t) (leads : Leads first text (t ++ rest))
    (ends : Ends rest) (value : IsValue m.2) (exact : r.HasExactFields)
    (h : r.members fuel first seen a text = .ok (c, s'))
    (more : ∀ {fuel' seen' a'}, r.members fuel' false seen' a' rest = .ok (c, s') → r.Accepts seen' ms) :
    r.Accepts seen (m :: ms) := by
  obtain ⟨fuel', s, name, seen', a', hname, ⟨s₁, hread⟩, htook, hrest⟩ :=
    members_ok member (fun _ _ hname => hname.isBody) leads ends value exact h
  rw [stringTail_quotes hname] at hread
  obtain ⟨rfl, -⟩ := Prod.mk.inj (Except.ok.inj hread)
  rw [String.ofList_toList] at htook
  exact .cons htook ends (more hrest)

theorem accepts_tail (tail : IsObjectTail Spelling ms s) (values : ∀ m ∈ ms, IsValue m.2) (exact : r.HasExactFields)
    (h : r.members fuel false seen a (s ++ rest) = .ok (c, s')) : r.Accepts seen ms := by
  induction tail generalizing fuel seen a with
  | close blanks => exact accepts_nil r seen
  | @comma b t s m ms blanks member more ih =>
    obtain ⟨hm, hms⟩ := List.forall_mem_cons.1 values
    have hleads : Leads false (b ++ ',' :: (t ++ s) ++ rest) (t ++ (s ++ rest)) := by
      rw [List.append_assoc, List.cons_append, List.append_assoc]
      exact .comma blanks _
    exact accepts_step member hleads (more.ends rest) hm exact h (ih hms)

/-- An object is refused if it gives a field twice, or a value that is refused by the reader of its field. -/
theorem accepts_of_read (object : IsObject Spelling ms s) (values : ∀ m ∈ ms, IsValue m.2) (exact : r.HasExactFields)
    (blanks : AreBlanks b) (h : r.read a (b ++ (s ++ rest)) = .ok (c, s')) : r.Accepts [] ms := by
  cases object with
  | empty => exact accepts_nil r []
  | @members t s m ms member more =>
    obtain ⟨hm, hms⟩ := List.forall_mem_cons.1 values
    rw [read, skipBlanks_append blanks, List.cons_append, skipBlanks_cons rfl, List.append_assoc] at h
    exact accepts_step member (.brace _) (more.ends rest) hm exact h (accepts_tail more hms exact)

end Named

/-! ### Lists -/

theorem listEnd_tail {vs : List (List Char)} (tail : IsListTail vs s) (h : listEnd (s ++ rest) = .ok s') : s' = rest := by
  cases tail with
  | close blanks =>
    rw [List.append_assoc, listEnd, skipBlanks_append blanks] at h
    cases h
    rfl
  | comma blanks =>
    rw [List.append_assoc, listEnd, skipBlanks_append blanks, List.cons_append, skipBlanks_cons rfl] at h
    simp only [if_neg (by decide : ',' ≠ ']'), if_true] at h
    split at h <;> cases h

theorem nextItem_close (blanks : AreBlanks b) (first : Bool) (rest : List Char) :
    nextItem first (b ++ ']' :: rest) = .ok none ∧ (skipBlanks (b ++ ']' :: rest)).drop 1 = rest := by
  constructor
  · rw [nextItem, skipBlanks_append blanks, skipBlanks_cons rfl]
    rfl
  · rw [skipBlanks_append blanks, skipBlanks_cons rfl]
    rfl

theorem nextItem_first {v : List Char} (value : IsValue v) (blanks : AreBlanks b) (rest : List Char) :
    nextItem true (b ++ (v ++ rest)) = .ok (some (v ++ rest)) := by
  obtain ⟨c, t, rfl, hvisible, hclose, -⟩ := value.head
  rw [nextItem, skipBlanks_append blanks, List.cons_append, skipBlanks_cons hvisible]
  simp only [if_neg hclose, if_true]

theorem nextItem_comma {b' v : List Char} (value : IsValue v) (blanks : AreBlanks b) (blanks' : AreBlanks b')
    (rest : List Char) : nextItem false (b ++ ',' :: (b' ++ (v ++ rest))) = .ok (some (v ++ rest)) := by
  obtain ⟨c, t, rfl, hvisible, hclose, -⟩ := value.head
  rw [nextItem, skipBlanks_append blanks, skipBlanks_cons rfl]
  simp only [skipBlanks_append blanks', List.cons_append, skipBlanks_cons hvisible, if_neg (by decide : ',' ≠ ']'),
    Bool.false_eq_true, if_false, if_true]
  split
  · rename_i heq
    cases heq
  · rename_i heq
    exact absurd (List.cons.inj heq).1 hclose
  · rfl

/-- If a list is not refused, its first item is the value of the first field. -/
theorem items_ok {fs : List (Field α)} {read : Nat} {v : List Char} (next : nextItem (read = 0) text = .ok (some (v ++ rest)))
    (value : IsValue v) (ends : Ends rest) (exact : ∀ a, Exact (f.update a))
    (h : r.items a text read (f :: fs) = .ok (c, s')) : ∃ a', r.items a' rest (read + 1) fs = .ok (c, s') := by
  rw [items, next] at h
  simp only at h
  cases hupdate : f.update a (v ++ rest) with
  | error e =>
    rw [hupdate] at h
    cases h
  | ok p =>
    obtain ⟨a', s₁⟩ := p
    obtain rfl : s₁ = rest := exact a v value [] rest a' s₁ (List.forall_mem_nil _) ends hupdate
    rw [hupdate] at h
    exact ⟨a', h⟩

theorem rest_of_items_close {fs : List (Field α)} {read : Nat} (blanks : AreBlanks b)
    (h : r.items a (b ++ ']' :: rest) read (f :: fs) = .ok (c, s')) : s' = rest := by
  obtain ⟨hnext, hrest⟩ := nextItem_close blanks (read = 0) rest
  rw [items, hnext] at h
  simp only [hrest] at h
  split at h
  · cases h
    rfl
  · cases h

theorem rest_of_items_tail {fs : List (Field α)} {vs : List (List Char)} {read : Nat} (tail : IsListTail vs s)
    (values : ∀ v ∈ vs, IsValue v) (exact : ∀ f ∈ fs, ∀ a, Exact (f.update a))
    (h : r.items a (s ++ rest) (read + 1) fs = .ok (c, s')) : s' = rest := by
  induction fs generalizing s vs read a with
  | nil =>
    rw [items] at h
    cases hend : listEnd (s ++ rest) with
    | error e =>
      rw [hend] at h
      cases h
    | ok s₁ =>
      rw [hend] at h
      cases h
      exact listEnd_tail tail hend
  | cons f fs ih =>
    obtain ⟨hf, hfs⟩ := List.forall_mem_cons.1 exact
    cases tail with
    | close blanks =>
      rw [List.append_assoc] at h
      exact rest_of_items_close blanks h
    | @comma b b' v s vs blanks blanks' more =>
      obtain ⟨hv, hvs⟩ := List.forall_mem_cons.1 values
      have hnext : nextItem (read + 1 = 0) (b ++ ',' :: (b' ++ (v ++ s)) ++ rest) = .ok (some (v ++ (s ++ rest))) := by
        simp only [List.append_assoc, List.cons_append]
        exact nextItem_comma hv blanks blanks' _
      obtain ⟨a', hrest⟩ := items_ok hnext hv (more.ends rest) hf h
      exact ih more hvs hfs hrest

/-- Whatever is made of a list, what follows it is left. -/
theorem rest_of_items {vs : List (List Char)} (list : IsList vs ('[' :: s)) (values : ∀ v ∈ vs, IsValue v)
    (exact : r.HasExactFields) (nonempty : r.fields ≠ []) (h : r.items a (s ++ rest) 0 r.fields = .ok (c, s')) :
    s' = rest := by
  obtain ⟨f, fs, hfields⟩ := List.exists_cons_of_ne_nil nonempty
  rw [HasExactFields, hfields] at exact
  rw [hfields] at h
  obtain ⟨hf, hfs⟩ := List.forall_mem_cons.1 exact
  cases list with
  | empty blanks =>
    rw [List.append_assoc] at h
    exact rest_of_items_close blanks h
  | @values b v s vs blanks more =>
    obtain ⟨hv, hvs⟩ := List.forall_mem_cons.1 values
    have hnext : nextItem (0 = 0) (b ++ (v ++ s) ++ rest) = .ok (some (v ++ (s ++ rest))) := by
      simp only [List.append_assoc]
      exact nextItem_first hv blanks _
    obtain ⟨a', hrest⟩ := items_ok hnext hv (more.ends rest) hf h
    exact rest_of_items_tail more hvs hfs hrest

/-- Whatever is made of a value that a record is read from, what follows it is left. -/
theorem exact_read (exact : r.HasExactFields) (nonempty : r.fields ≠ []) (a : α) : Exact (r.read a) := by
  intro v hv b rest c s' blanks ends h
  obtain ⟨d, t, rfl, hvisible, -⟩ := hv.head
  obtain ⟨-, -, -, -, -, hlist, hobject⟩ := hv.forms
  rw [read, skipBlanks_append blanks, List.cons_append, skipBlanks_cons hvisible] at h
  simp only at h
  split at h
  · rename_i hd
    subst hd
    obtain ⟨vs, list, hvs⟩ := hlist rfl
    exact rest_of_items list hvs exact nonempty h
  · split at h
    · rename_i hd
      subst hd
      obtain ⟨ms, object, hms⟩ := hobject rfl
      cases object with
      | empty blanks =>
        rw [List.append_assoc] at h
        exact rest_of_members_close blanks h
      | @members t s m ms member more =>
        obtain ⟨hm, hms⟩ := List.forall_mem_cons.1 hms
        rw [List.append_assoc] at h
        obtain ⟨_, _, _, _, _, -, -, -, hrest⟩ :=
          members_ok member (fun _ _ hbody => hbody) (.brace _) (more.ends rest) hm exact h
        exact rest_of_members_tail more hms exact hrest
    · cases h

end Record

end SeriesRegion.Json
