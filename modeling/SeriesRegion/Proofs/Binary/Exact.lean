import SeriesRegion.Proofs.Binary.Reread
import SeriesRegion.Request
import Mathlib

/-!
# One spelling for each value

The bytes that a layout reads are those that it writes for the value (`Format.Exact`).  This follows for each layout from its
parts, as long as no keys are put in order.  Together with reading back what was written it makes the layouts of plans and of
log entries codecs: a value has one spelling, no spelling begins another, and what is no spelling is refused
(`Format.plan_logEntry_codec`).
-/

namespace SeriesRegion.Binary

namespace Format

variable {α β : Type}

/-- The bytes that a layout reads are those that it writes for the value, and what it leaves unread follows them. -/
def Exact (f : Format α) : Prop := ∀ bs a rest, f.read bs = .ok (a, rest) → bs = f.write a ++ rest

/-! ### Numbers -/

theorem number_exact (width : Nat) : (number width).Exact := by
  intro bs n rest h
  obtain ⟨taken, htaken, rfl⟩ := Reader.map_eq_ok h
  obtain ⟨rfl, rfl⟩ := Reader.take_eq_ok htaken
  show taken ++ rest = littleEndian taken.length (ofLittleEndian taken) ++ rest
  rw [littleEndian_ofLittleEndian]

theorem Exact.imap {f : Format α} (h : f.Exact) {there : α → β} {back : β → α}
    (hb : ∀ {bs a rest}, f.read bs = .ok (a, rest) → back (there a) = a) : (f.imap there back).Exact := by
  intro bs b rest hr
  obtain ⟨a, ha, rfl⟩ := Reader.map_eq_ok hr
  show bs = f.write (back (there a)) ++ rest
  rw [hb ha]
  exact h _ _ _ ha

theorem word8_exact : word8.Exact := (number_exact 1).imap fun h => UInt8.toNat_ofNat_of_lt (number_lt_of_read h)

theorem word32_exact : word32.Exact := (number_exact 4).imap fun h => UInt32.toNat_ofNat_of_lt (number_lt_of_read h)

theorem word64_exact : word64.Exact := (number_exact 8).imap fun h => UInt64.toNat_ofNat_of_lt (number_lt_of_read h)

theorem int32_exact : int32.Exact := word32_exact.imap fun _ => UInt32.toUInt32_toInt32 _

theorem int64_exact : int64.Exact := word64_exact.imap fun _ => UInt64.toUInt64_toInt64 _

theorem boolean_exact : boolean.Exact := by
  intro bs b rest hread
  obtain ⟨n, mid, hn, h⟩ := Reader.bind_eq_ok hread
  obtain rfl := word8_exact _ _ _ hn
  split at h
  · rename_i hzero
    cases h
    rw [hzero]
    rfl
  · split at h
    · rename_i hone
      cases h
      rw [hone]
      rfl
    · cases h

/-! ### Texts and lists -/

theorem text_exact : text.Exact := by
  intro bs s rest hread
  obtain ⟨n, mid, hn, htext⟩ := Reader.bind_eq_ok hread
  obtain ⟨taken, mid', htaken, h⟩ := Reader.bind_eq_ok htext
  obtain rfl := number_exact 8 _ _ _ hn
  obtain ⟨rfl, rfl⟩ := Reader.take_eq_ok htaken
  cases hs : Utf8.decode taken with
  | error e =>
    rw [hs] at h
    cases h
  | ok s' =>
    rw [hs] at h
    cases h
    obtain rfl := ofText_of_decode hs
    exact (List.append_assoc _ _ _).symm

theorem Exact.pair {f : Format α} {g : Format β} (hf : f.Exact) (hg : g.Exact) : (f.pair g).Exact := by
  intro bs p rest h
  obtain ⟨a, mid, ha, h⟩ := Reader.bind_eq_ok h
  obtain ⟨b, hb, rfl⟩ := Reader.map_eq_ok h
  obtain rfl := hf _ _ _ ha
  obtain rfl := hg _ _ _ hb
  exact (List.append_assoc _ _ _).symm

/-- A row of items is read from what is written for one item after the other. -/
theorem Exact.replicate {f : Format α} (hf : f.Exact) {n : Nat} {bs rest : Bytes} {as : List α}
    (h : f.read.replicate n bs = .ok (as, rest)) : bs = as.flatMap f.write ++ rest := by
  induction n generalizing bs as with
  | zero =>
    cases h
    rfl
  | succ n ih =>
    rw [Reader.replicate_succ] at h
    obtain ⟨a, mid, ha, h⟩ := Reader.bind_eq_ok h
    obtain ⟨as, has, rfl⟩ := Reader.map_eq_ok h
    obtain rfl := hf _ _ _ ha
    rw [ih has, List.flatMap_cons, List.append_assoc]

theorem Exact.list {f : Format α} (hf : f.Exact) : f.list.Exact := by
  intro bs as rest h
  obtain ⟨n, mid, hn, hall⟩ := Reader.bind_eq_ok h
  obtain ⟨hlength, -⟩ := Reader.replicate_eq_ok hall
  rw [number_exact 8 _ _ _ hn, hf.replicate hall, ← hlength]
  exact (List.append_assoc _ _ _).symm

theorem Exact.option {f : Format α} (hf : f.Exact) : f.option.Exact := by
  intro bs a rest hread
  obtain ⟨n, mid, hn, h⟩ := Reader.bind_eq_ok hread
  obtain rfl := word8_exact _ _ _ hn
  split at h
  · rename_i hzero
    cases h
    rw [hzero]
    rfl
  · split at h
    · rename_i hone
      obtain ⟨b, hb, rfl⟩ := Reader.map_eq_ok h
      rw [hone, hf _ _ _ hb]
      exact (List.append_assoc _ _ _).symm
    · cases h

/-! ### Values of several kinds -/

/-- A layout of several kinds is exact if what is read of a kind is written under the number of the kind. -/
theorem variants_exact {count : Nat} {write : α → UInt32 × Bytes} {read : UInt32 → Option (Reader α)}
    (h : ∀ n r, read n = some r → ∀ bs a rest, r bs = .ok (a, rest) → (write a).1 = n ∧ bs = (write a).2 ++ rest) :
    (variants count write read).Exact := by
  intro bs a rest hread
  obtain ⟨n, r, mid, hn, hr, hkind⟩ := variants_eq_ok hread
  obtain rfl := word32_exact _ _ _ hn
  obtain ⟨rfl, rfl⟩ := h n r hr _ _ _ hkind
  exact (List.append_assoc _ _ _).symm

/-- What is read of one kind. -/
theorem Exact.of_map {f : Format β} (hf : f.Exact) {make : β → α} {bs rest : Bytes} {a : α}
    (h : f.read.map make bs = .ok (a, rest)) : ∃ b, a = make b ∧ bs = f.write b ++ rest := by
  obtain ⟨b, hb, rfl⟩ := Reader.map_eq_ok h
  exact ⟨b, rfl, hf _ _ _ hb⟩

theorem value_exact : value.Exact := by
  refine variants_exact fun n r hr bs v rest h => ?_
  split at hr <;> cases hr
  case h_1 =>
    obtain ⟨b, rfl, hbs⟩ := boolean_exact.of_map h
    exact ⟨rfl, hbs⟩
  case h_2 =>
    obtain ⟨n, rfl, hbs⟩ := int32_exact.of_map h
    exact ⟨rfl, hbs⟩
  case h_3 =>
    obtain ⟨n, rfl, hbs⟩ := int64_exact.of_map h
    exact ⟨rfl, hbs⟩
  case h_4 =>
    obtain ⟨bits, rfl, hbs⟩ := word32_exact.of_map h
    exact ⟨rfl, hbs⟩
  case h_5 =>
    obtain ⟨bits, rfl, hbs⟩ := word64_exact.of_map h
    exact ⟨rfl, hbs⟩
  case h_6 =>
    obtain ⟨s, rfl, hbs⟩ := text_exact.of_map h
    exact ⟨rfl, hbs⟩

/-! ### Log entries -/

theorem row_exact : row.Exact :=
  (text_exact.pair (int64_exact.pair (text_exact.list.pair value_exact.list))).imap fun _ => rfl

theorem tablet_exact : tablet.Exact :=
  (text_exact.pair (text_exact.list.pair (int64_exact.list.pair value_exact.list.list))).imap fun _ => rfl

theorem payload_exact : payload.Exact := by
  refine variants_exact fun n r hr bs p rest h => ?_
  split at hr <;> cases hr
  case h_1 =>
    obtain ⟨row, rfl, hbs⟩ := row_exact.of_map h
    exact ⟨rfl, hbs⟩
  case h_2 =>
    obtain ⟨tablet, rfl, hbs⟩ := tablet_exact.of_map h
    exact ⟨rfl, hbs⟩

theorem logEntry_exact : logEntry.Exact := (word64_exact.option.pair payload_exact).imap fun _ => rfl

/-! ### Plans -/

section Planned

variable {π : Type} {f : Format π}

theorem planned_roundTrips (hf : f.RoundTrips) : (planned f).RoundTrips :=
  (text_roundTrips.pair ((roundTrips_of_reads word64_read).option.pair hf)).imap fun _ => rfl

theorem planned_positive (f : Format π) : (planned f).Positive := (text_positive.pair _).imap _ _

theorem word64_positive : word64.Positive := by
  intro n
  have : (word64.write n).length = 8 := length_littleEndian 8 _
  omega

theorem group_roundTrips (hf : f.RoundTrips) : (group f).RoundTrips :=
  (text_roundTrips.pair ((roundTrips_of_reads word64_read).option.pair (text_roundTrips.pair
    (((roundTrips_of_reads word64_read).list word64_positive).pair
      ((planned_roundTrips hf).list (planned_positive f)))))).imap fun _ => rfl

theorem planned_exact (hf : f.Exact) : (planned f).Exact :=
  (text_exact.pair (word64_exact.option.pair hf)).imap fun _ => rfl

theorem group_exact (hf : f.Exact) : (group f).Exact :=
  (text_exact.pair (word64_exact.option.pair (text_exact.pair
    (word64_exact.list.pair (planned_exact hf).list)))).imap fun _ => rfl

end Planned

theorem command_roundTrips : command.RoundTrips := by
  refine variants_roundTrips fun c => ?_
  cases c with
  | row i => exact ⟨_, rfl, fun rest h => Reader.map_ok (planned_roundTrips row_roundTrips i rest h)⟩
  | tablet i => exact ⟨_, rfl, fun rest h => Reader.map_ok (planned_roundTrips tablet_roundTrips i rest h)⟩
  | tablets g => exact ⟨_, rfl, fun rest h => Reader.map_ok (group_roundTrips tablet_roundTrips g rest h)⟩
  | rows g => exact ⟨_, rfl, fun rest h => Reader.map_ok (group_roundTrips row_roundTrips g rest h)⟩
  | rowsOfOneDevice g => exact ⟨_, rfl, fun rest h => Reader.map_ok (group_roundTrips row_roundTrips g rest h)⟩

theorem command_exact : command.Exact := by
  refine variants_exact fun n r hr bs c rest h => ?_
  split at hr <;> cases hr
  case h_1 =>
    obtain ⟨i, rfl, hbs⟩ := (planned_exact row_exact).of_map h
    exact ⟨rfl, hbs⟩
  case h_2 =>
    obtain ⟨i, rfl, hbs⟩ := (planned_exact tablet_exact).of_map h
    exact ⟨rfl, hbs⟩
  case h_3 =>
    obtain ⟨g, rfl, hbs⟩ := (group_exact tablet_exact).of_map h
    exact ⟨rfl, hbs⟩
  case h_4 =>
    obtain ⟨g, rfl, hbs⟩ := (group_exact row_exact).of_map h
    exact ⟨rfl, hbs⟩
  case h_5 =>
    obtain ⟨g, rfl, hbs⟩ := (group_exact row_exact).of_map h
    exact ⟨rfl, hbs⟩

theorem fragment_roundTrips : fragment.RoundTrips :=
  (text_roundTrips.pair (text_roundTrips.pair (text_roundTrips.pair
    ((roundTrips_of_reads int64_read).pair (roundTrips_of_reads int64_read))))).imap fun _ => rfl

theorem fragment_exact : fragment.Exact :=
  (text_exact.pair (text_exact.pair (text_exact.pair (int64_exact.pair int64_exact)))).imap fun _ => rfl

theorem plan_roundTrips : plan.RoundTrips := by
  refine variants_roundTrips fun p => ?_
  cases p with
  | write c => exact ⟨_, rfl, fun rest h => Reader.map_ok (command_roundTrips c rest h)⟩
  | fragment f => exact ⟨_, rfl, fun rest h => Reader.map_ok (fragment_roundTrips f rest h)⟩

theorem plan_exact : plan.Exact := by
  refine variants_exact fun n r hr bs p rest h => ?_
  split at hr <;> cases hr
  case h_1 =>
    obtain ⟨c, rfl, hbs⟩ := command_exact.of_map h
    exact ⟨rfl, hbs⟩
  case h_2 =>
    obtain ⟨f, rfl, hbs⟩ := fragment_exact.of_map h
    exact ⟨rfl, hbs⟩

/-! ### Codecs -/

/-- The values of a layout and what is written for them determine each other.  What is written is taken to be short enough
for its length to be written down. -/
structure Codec (f : Format α) : Prop where
  /-- What is written is read back, whatever follows it. -/
  decode_write : ∀ a rest, (f.write a).length < UInt64.size → f.decode (f.write a ++ rest) = .ok a
  /-- What is read has been written, whatever follows it. -/
  write_of_decode : ∀ bs a, f.decode bs = .ok a → ∃ rest, bs = f.write a ++ rest
  /-- What is cut short is refused. -/
  refuses : ∀ a bs, (f.write a).length < UInt64.size → bs <+: f.write a → bs ≠ f.write a → ∃ e, f.decode bs = .error e
  /-- No two values are written alike. -/
  write_inj : ∀ a b, (f.write a).length < UInt64.size → f.write a = f.write b → a = b

theorem Exact.decode {f : Format α} (h : f.Exact) {bs : Bytes} {a : α} (hd : f.decode bs = .ok a) :
    ∃ rest, bs = f.write a ++ rest := by
  rw [Format.decode] at hd
  cases hr : f.read bs with
  | error e =>
    rw [hr] at hd
    cases hd
  | ok p =>
    rw [hr] at hd
    cases hd
    exact ⟨p.2, h _ _ _ hr⟩

theorem RoundTrips.decode {f : Format α} (h : f.RoundTrips) {a : α} (ha : (f.write a).length < UInt64.size)
    (rest : Bytes) : f.decode (f.write a ++ rest) = .ok a := by
  rw [Format.decode, h a rest ha]

/-- A layout that reads back what it writes and reads nothing else is a codec. -/
theorem codec_of {f : Format α} (hr : f.RoundTrips) (he : f.Exact) : f.Codec where
  decode_write a rest ha := hr.decode ha rest
  write_of_decode bs a := he.decode
  refuses a bs ha hprefix hne := by
    obtain ⟨missing, hmissing⟩ := hprefix
    cases hd : f.decode bs with
    | error e => exact ⟨e, rfl⟩
    | ok b =>
      -- The spelling of what was read begins that of `a`, so both are of one value, and nothing is missing.
      obtain ⟨rest, hrest⟩ := he.decode hd
      have hwrite : f.write a = f.write b ++ (rest ++ missing) := by rw [← hmissing, hrest, List.append_assoc]
      have hb : (f.write b).length < UInt64.size := by
        rw [hwrite, List.length_append] at ha
        omega
      have hdecode := hr.decode ha []
      rw [List.append_nil, hwrite, hr.decode hb] at hdecode
      cases hdecode
      have hnil : rest ++ missing = [] := List.self_eq_append_right.1 hwrite
      rw [hrest, (List.append_eq_nil_iff.1 hnil).1, List.append_nil] at hne
      exact absurd rfl hne
  write_inj a b ha hab := by
    have hdecode := hr.decode ha []
    rw [hab, hr.decode (hab ▸ ha)] at hdecode
    cases hdecode
    rfl

/-- A request with a plan in bytes carries the plan. -/
theorem planNode_encode {p : Plan} (h : (plan.write p).length < UInt64.size) : (RawRequest.encode p).planNode = .ok p := by
  have hdecode := plan_roundTrips.decode h []
  rw [List.append_nil] at hdecode
  rw [RawRequest.encode, RawRequest.planNode, hdecode]

/-- Plans and log entries are told apart by their bytes, and the bytes by what they are read as: what is written is read
back, whatever follows it; nothing else is read; what is cut short is refused; and a request that carries the bytes of a plan,
which is what encoding the plan gives, is as good as one that carries the plan. -/
theorem plan_logEntry_codec : plan.Codec ∧ logEntry.Codec ∧ ∀ p, (plan.write p).length < UInt64.size →
    RawRequest.encode p = .bytes (plan.write p) ∧
      (RawRequest.bytes (plan.write p)).planNode = (RawRequest.plan p).planNode ∧
      (RawRequest.bytes (plan.write p)).writeCommand = (RawRequest.plan p).writeCommand ∧
      (RawRequest.bytes (plan.write p)).fragment = (RawRequest.plan p).fragment := by
  refine ⟨codec_of plan_roundTrips plan_exact, codec_of logEntry_roundTrips logEntry_exact, fun p hp => ?_⟩
  have hnode : (RawRequest.bytes (plan.write p)).planNode = (RawRequest.plan p).planNode := planNode_encode hp
  refine ⟨rfl, hnode, ?_, ?_⟩
  · rw [RawRequest.writeCommand, hnode, RawRequest.writeCommand]
  · rw [RawRequest.fragment, hnode, RawRequest.fragment]

/-- An insert of a row with a float that is no number. -/
def oddRow : Planned Row := ⟨"q", some 7, ⟨"d", 1, ["m"], [.float 0x7fc00001]⟩⟩

/-- The row and one with a text, of one log position. -/
def twoRows : Group Row := ⟨"q", some 7, "d", [0, 1], [oddRow, ⟨"r", none, ⟨"e", -2, ["n"], [.text "é"]⟩⟩]⟩

private theorem length_twoRows : (plan.write (.write (.rows twoRows))).length = 201 := by cbv

private theorem length_oddRow : (logEntry.write oddRow.rowEntry).length = 63 := by cbv

/-- The codecs at two rows and at a log entry: the rows are read back in front of another byte, and either is refused without
its last one. -/
theorem plan_logEntry_codec_twoRows :
    plan.decode (plan.write (.write (.rows twoRows)) ++ [255]) = .ok (.write (.rows twoRows)) ∧
      (∃ e, plan.decode (plan.write (.write (.rows twoRows))).dropLast = .error e) ∧
      RawRequest.encode (.write (.rows twoRows)) = .bytes (plan.write (.write (.rows twoRows))) ∧
      (RawRequest.bytes (plan.write (.write (.rows twoRows)))).writeCommand = .ok (.rows twoRows) ∧
      ∃ e, logEntry.decode (logEntry.write oddRow.rowEntry).dropLast = .error e := by
  have hplan : (plan.write (.write (.rows twoRows))).length < UInt64.size := by rw [length_twoRows]; decide
  have hentry : (logEntry.write oddRow.rowEntry).length < UInt64.size := by rw [length_oddRow]; decide
  have hcut : ∀ bs : Bytes, 0 < bs.length → bs.dropLast ≠ bs := fun bs h heq => by
    have := congrArg List.length heq
    rw [List.length_dropLast] at this
    omega
  obtain ⟨hplans, hentries, hrequests⟩ := plan_logEntry_codec
  obtain ⟨hencode, -, hcommand, -⟩ := hrequests _ hplan
  refine ⟨hplans.decode_write _ _ hplan, ?_, hencode, hcommand, ?_⟩
  · exact hplans.refuses _ _ hplan (List.dropLast_prefix _) (hcut _ (by rw [length_twoRows]; decide))
  · exact hentries.refuses _ _ hentry (List.dropLast_prefix _) (hcut _ (by rw [length_oddRow]; decide))

end Format

end SeriesRegion.Binary
