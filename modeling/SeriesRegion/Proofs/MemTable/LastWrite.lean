import SeriesRegion.MemTable

/-!
# The last write of a point

What entries leave in a table is known from the table before, the devices and series that they name, and the value of
their last write of each point (`MemTable.value_applyAll`).  Tables with the same devices, series and values are equal
(`MemTable.ext_points`).
-/

namespace SeriesRegion

/-- One time of one measurement of a device. -/
structure Point where
  device : String
  measurement : String
  time : Int64
  deriving DecidableEq, Repr

namespace MemTable

/-! ### Writes -/

/-- The points that one column writes, with their values. -/
def columnWrites (device : String) (c : String × List (Int64 × Value)) : List (Point × Value) :=
  c.2.map fun q => (⟨device, c.1, q.1⟩, q.2)

/-- The points that an entry writes, with their values, in the order of writing. -/
def writes (e : LogEntry) : List (Point × Value) :=
  (columnsOf e.payload).flatMap (columnWrites e.payload.device)

/-- The value that writes leave at a point: that of the last write of the point, if there is one. -/
def lastOf (ws : List (Point × Value)) (x : Point) : Option Value := ws.reverse.lookup x

/-- The value that entries leave at a point. -/
def lastWrite (es : List LogEntry) (x : Point) : Option Value := lastOf (es.flatMap writes) x

@[simp] theorem lastOf_nil (x : Point) : lastOf [] x = none := rfl

theorem lastOf_append (ws ws' : List (Point × Value)) (x : Point) :
    lastOf (ws ++ ws') x = (lastOf ws' x).or (lastOf ws x) := by
  rw [lastOf, List.reverse_append, List.lookup_append]
  rfl

theorem lastOf_isSome {ws : List (Point × Value)} {x : Point} : (lastOf ws x).isSome ↔ x ∈ ws.map (·.1) := by
  rw [lastOf, List.lookup_isSome_iff, List.mem_map]
  constructor
  · rintro ⟨w, hw, hx⟩
    exact ⟨w, List.mem_reverse.1 hw, (beq_iff_eq.1 hx).symm⟩
  · rintro ⟨w, hw, rfl⟩
    exact ⟨w, List.mem_reverse.2 hw, beq_self_eq_true _⟩

theorem lastOf_columnWrites (device : String) (c : String × List (Int64 × Value)) (x : Point) :
    lastOf (columnWrites device c) x =
      if x.device = device ∧ x.measurement = c.1 then c.2.reverse.lookup x.time else none := by
  obtain ⟨measurement, points⟩ := c
  induction points with
  | nil => simp [columnWrites]
  | cons q points ih =>
    have hc : columnWrites device (measurement, q :: points) =
        [(⟨device, measurement, q.1⟩, q.2)] ++ columnWrites device (measurement, points) := rfl
    rw [hc, lastOf_append, ih, List.reverse_cons, List.lookup_append]
    by_cases hx : x.device = device ∧ x.measurement = measurement
    · obtain ⟨rfl, rfl⟩ := hx
      have hq : (x == ⟨x.device, x.measurement, q.1⟩) = (x.time == q.1) := by
        rw [Bool.eq_iff_iff, beq_iff_eq, beq_iff_eq]
        constructor
        · intro h
          rw [h]
        · intro h
          rw [← h]
      have hl : lastOf [((⟨x.device, x.measurement, q.1⟩ : Point), q.2)] x = [q].lookup x.time := by
        rw [lastOf, List.reverse_singleton, List.lookup_cons, List.lookup_cons, hq]
        rfl
      rw [hl, if_pos ⟨rfl, rfl⟩, if_pos ⟨rfl, rfl⟩]
    · have hq : x ≠ ⟨device, measurement, q.1⟩ := by
        rintro rfl
        exact hx ⟨rfl, rfl⟩
      simp [lastOf, hx, hq]

/-! ### What a table says -/

def value (t : MemTable) (x : Point) : Option Value := t.value? x.device x.measurement x.time

def hasDevice (t : MemTable) (device : String) : Bool := (t.devices.get? device).isSome

def hasSeries (t : MemTable) (device measurement : String) : Bool := (t.series? device measurement).isSome

theorem eq_of_isSome {α : Type} {a b : Option α} (h : a.isSome = b.isSome)
    (values : ∀ x y, a = some x → b = some y → x = y) : a = b := by
  cases a with
  | none => exact (Option.isNone_iff_eq_none.1 (Option.isSome_eq_false_iff.1 h.symm)).symm
  | some x =>
    obtain ⟨y, rfl⟩ := Option.isSome_iff_exists.1 h.symm
    rw [values x y rfl rfl]

/-- A table is known from its devices, its series, the values of its points and its highest log position. -/
theorem ext_points {a b : MemTable} (devices : ∀ device, a.hasDevice device = b.hasDevice device)
    (series : ∀ device measurement, a.hasSeries device measurement = b.hasSeries device measurement)
    (values : ∀ x, a.value x = b.value x) (index : a.maxSearchIndex = b.maxSearchIndex) : a = b := by
  have hdevices : a.devices = b.devices := by
    apply SortedMap.ext_get?
    intro device
    refine eq_of_isSome (devices device) fun ma mb ha hb => ?_
    apply SortedMap.ext_get?
    intro measurement
    have hs := series device measurement
    simp only [hasSeries, series?, ha, hb, Option.bind_some] at hs
    refine eq_of_isSome hs fun sa sb hsa hsb => ?_
    apply SortedMap.ext_get?
    intro time
    have hv := values ⟨device, measurement, time⟩
    simpa only [value, value?, series?, ha, hb, hsa, hsb, Option.bind_some] using hv
  obtain ⟨da, ia⟩ := a
  obtain ⟨db, ib⟩ := b
  obtain rfl : da = db := hdevices
  obtain rfl : ia = ib := index
  rfl

/-! ### What entries leave -/

theorem get?_writeSeries (s : Series) (points : List (Int64 × Value)) (time : Int64) :
    (writeSeries s points).get? time = (points.reverse.lookup time).or (s.get? time) :=
  SortedMap.get?_foldl_insert s points time

/-- The columns of an entry written into the series of its device. -/
def writeColumns (d : SortedMap String Series) (cs : List (String × List (Int64 × Value))) : SortedMap String Series :=
  cs.foldl (fun d c => writeMeasurement d c.1 c.2) d

theorem writeColumns_isSome (d : SortedMap String Series) (cs : List (String × List (Int64 × Value)))
    (measurement : String) :
    ((writeColumns d cs).get? measurement).isSome =
      ((d.get? measurement).isSome || cs.any fun c => c.1 = measurement) := by
  induction cs generalizing d with
  | nil => simp [writeColumns]
  | cons c cs ih =>
    rw [writeColumns, List.foldl_cons, ← writeColumns, ih, writeMeasurement, SortedMap.get?_alter, List.any_cons]
    by_cases h : measurement = c.1
    · simp [h]
    · simp [h, Ne.symm h]

theorem writeColumns_value (d : SortedMap String Series) (cs : List (String × List (Int64 × Value))) (x : Point) :
    ((writeColumns d cs).get? x.measurement).bind (·.get? x.time) =
      (lastOf (cs.flatMap (columnWrites x.device)) x).or ((d.get? x.measurement).bind (·.get? x.time)) := by
  induction cs generalizing d with
  | nil => rfl
  | cons c cs ih =>
    rw [writeColumns, List.foldl_cons, ← writeColumns, ih, List.flatMap_cons, lastOf_append, Option.or_assoc,
      writeMeasurement, SortedMap.get?_alter, lastOf_columnWrites]
    by_cases h : x.measurement = c.1
    · rw [if_pos h, if_pos ⟨rfl, h⟩, h, Option.bind_some, get?_writeSeries]
      cases d.get? c.1 with
      | none => rfl
      | some s => rfl
    · rw [if_neg h, if_neg fun hx => h hx.2]
      rfl

theorem devices_apply (t : MemTable) (e : LogEntry) (device : String) :
    (t.apply e).devices.get? device =
      if device = e.payload.device
        then some (writeColumns ((t.devices.get? e.payload.device).getD .empty) (columnsOf e.payload))
        else t.devices.get? device := by
  rw [apply, write, SortedMap.get?_alter]
  rfl

theorem hasDevice_apply (t : MemTable) (e : LogEntry) (device : String) :
    (t.apply e).hasDevice device = (t.hasDevice device || decide (e.payload.device = device)) := by
  rw [hasDevice, hasDevice, devices_apply]
  by_cases h : device = e.payload.device
  · simp [h]
  · simp [h, Ne.symm h]

/-- Whether an entry writes into the series of a measurement. -/
def names (e : LogEntry) (device measurement : String) : Bool :=
  e.payload.device = device ∧ (columnsOf e.payload).any fun c => c.1 = measurement

theorem hasSeries_apply (t : MemTable) (e : LogEntry) (device measurement : String) :
    (t.apply e).hasSeries device measurement = (t.hasSeries device measurement || names e device measurement) := by
  rw [hasSeries, hasSeries, series?, series?, devices_apply, names]
  by_cases h : device = e.payload.device
  · subst h
    rw [if_pos rfl, Option.bind_some, writeColumns_isSome]
    cases t.devices.get? e.payload.device with
    | none => simp
    | some d => simp
  · simp [h, Ne.symm h]

theorem value_apply (t : MemTable) (e : LogEntry) (x : Point) :
    (t.apply e).value x = (lastOf (writes e) x).or (t.value x) := by
  rw [value, value, value?, value?, series?, series?, devices_apply, writes]
  by_cases h : x.device = e.payload.device
  · rw [if_pos h, Option.bind_some, writeColumns_value, ← h]
    cases t.devices.get? x.device with
    | none => rfl
    | some d => rfl
  · have hn : lastOf ((columnsOf e.payload).flatMap (columnWrites e.payload.device)) x = none := by
      rw [← Option.not_isSome_iff_eq_none, lastOf_isSome]
      intro hx
      obtain ⟨w, hw, rfl⟩ := List.mem_map.1 hx
      obtain ⟨c, -, hc⟩ := List.mem_flatMap.1 hw
      obtain ⟨q, -, rfl⟩ := List.mem_map.1 hc
      exact h rfl
    rw [if_neg h, hn]
    rfl

theorem applyAll_cons (t : MemTable) (e : LogEntry) (es : List LogEntry) :
    t.applyAll (e :: es) = (t.apply e).applyAll es := rfl

theorem applyAll_append (t : MemTable) (es es' : List LogEntry) :
    t.applyAll (es ++ es') = (t.applyAll es).applyAll es' := List.foldl_append

theorem hasDevice_applyAll (t : MemTable) (es : List LogEntry) (device : String) :
    (t.applyAll es).hasDevice device = (t.hasDevice device || es.any fun e => e.payload.device = device) := by
  induction es generalizing t with
  | nil => simp [applyAll]
  | cons e es ih => rw [applyAll_cons, ih, hasDevice_apply, List.any_cons, Bool.or_assoc]

theorem hasSeries_applyAll (t : MemTable) (es : List LogEntry) (device measurement : String) :
    (t.applyAll es).hasSeries device measurement =
      (t.hasSeries device measurement || es.any fun e => names e device measurement) := by
  induction es generalizing t with
  | nil => simp [applyAll]
  | cons e es ih => rw [applyAll_cons, ih, hasSeries_apply, List.any_cons, Bool.or_assoc]

/-- Entries leave the value of their last write at a point, and the value before if they do not write it. -/
theorem value_applyAll (t : MemTable) (es : List LogEntry) (x : Point) :
    (t.applyAll es).value x = (lastWrite es x).or (t.value x) := by
  induction es generalizing t with
  | nil => rfl
  | cons e es ih =>
    rw [applyAll_cons, ih, value_apply, lastWrite, lastWrite, List.flatMap_cons, lastOf_append, Option.or_assoc]

theorem value_applyAll_empty (es : List LogEntry) (x : Point) : (empty.applyAll es).value x = lastWrite es x :=
  (value_applyAll empty es x).trans Option.or_none

end MemTable

end SeriesRegion
