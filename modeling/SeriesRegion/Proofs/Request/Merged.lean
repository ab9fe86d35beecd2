import SeriesRegion.Request
import Mathlib.Data.List.Forall2
import Mathlib.Data.Set.List

/-!
# Merging commands

Commands can be merged if there is one, or several that are all rows or all tablets (`mergeCommands_ok_iff`).  The command
that they are merged into has their inserts, in their order (`mergeCommands_entries`).
-/

namespace SeriesRegion

section Lists

variable {α β ε : Type} {f : α → Except ε β} {xs : List α}

/-- A list is mapped if each member is. -/
theorem mapM_eq_ok_iff {ys : List β} : xs.mapM f = .ok ys ↔ List.Forall₂ (fun x y => f x = .ok y) xs ys := by
  constructor
  · intro h
    induction xs generalizing ys with
    | nil =>
      cases h
      exact .nil
    | cons x xs ih =>
      rw [List.mapM_cons] at h
      cases hx : f x with
      | error e =>
        rw [hx] at h
        cases h
      | ok y =>
        cases hxs : xs.mapM f with
        | error e =>
          rw [hx, hxs] at h
          cases h
        | ok rest =>
          rw [hx, hxs] at h
          cases h
          exact .cons hx (ih hxs)
  · intro h
    induction h with
    | nil => rfl
    | cons hx _ ih =>
      rw [List.mapM_cons, hx, ih]
      rfl

end Lists

/-! ### Commands of one kind -/

namespace Command

/-- Binding a command binds its inserts. -/
theorem entries_bindTo (index : Option UInt64) (c : Command) :
    (c.bindTo index).entries = c.entries.map fun e => ⟨index, e.payload⟩ := by
  cases c <;> simp [bindTo, entries, Planned.bindTo, Group.bindTo, Planned.rowEntry, Planned.tabletEntry]

@[simp] theorem kind_bindTo (index : Option UInt64) (c : Command) : (c.bindTo index).kind = c.kind := by
  cases c <;> rfl

theorem asRow?_eq_some {c : Command} {i : Planned Row} : c.asRow? = some i ↔ c = .row i := by
  cases c <;> simp [asRow?]

theorem asTablet?_eq_some {c : Command} {i : Planned Tablet} : c.asTablet? = some i ↔ c = .tablet i := by
  cases c <;> simp [asTablet?]

theorem kind_eq_row {c : Command} : c.kind = .row ↔ c ∈ Set.range row := by
  cases c <;> simp [kind]

theorem kind_eq_tablet {c : Command} : c.kind = .tablet ↔ c ∈ Set.range tablet := by
  cases c <;> simp [kind]

theorem exists_eq_map {π : Type} {make : Planned π → Command} {cs : List Command} (h : ∀ c ∈ cs, c ∈ Set.range make) :
    ∃ is : List (Planned π), cs = is.map make := by
  have hmem : cs ∈ Set.range (List.map make) := by
    rw [Set.range_list_map]
    exact h
  obtain ⟨is, rfl⟩ := hmem
  exact ⟨is, rfl⟩

end Command

/-- A group is collected if all commands are what is picked. -/
theorem collectGroup_eq_ok_iff {π : Type} (shape : GroupShape) {pick : Command → Option (Planned π)}
    {make : Planned π → Command} (picks : ∀ {c i}, pick c = some i ↔ c = make i) {cs : List Command}
    {is : List (Planned π)} : collectGroup shape pick cs = .ok is ↔ cs = is.map make := by
  rw [collectGroup, mapM_eq_ok_iff, ← List.forall₂_eq_eq_eq, List.forall₂_map_right_iff]
  constructor
  · refine List.Forall₂.imp fun c i hc => picks.1 ?_
    cases hp : pick c with
    | none =>
      rw [hp] at hc
      cases hc
    | some j =>
      rw [hp] at hc
      cases hc
      rfl
  · refine List.Forall₂.imp fun c i hc => ?_
    rw [picks.2 hc]

/-! ### Merging -/

/-- Whether commands can be merged: there is one, or there are several that are all single rows or all single tablets. -/
def Mergeable (cs : List Command) : Prop :=
  cs.length = 1 ∨ 2 ≤ cs.length ∧ ((∀ c ∈ cs, c.kind = .row) ∨ ∀ c ∈ cs, c.kind = .tablet)

instance (cs : List Command) : Decidable (Mergeable cs) := inferInstanceAs (Decidable (_ ∨ _))

/-- What several commands are merged into. -/
inductive Merged : List Command → Command → Prop where
  | tablets (first second : Planned Tablet) (rest : List (Planned Tablet)) :
      Merged ((first :: second :: rest).map .tablet) (.tablets (.under (.tablet first) (first :: second :: rest)))
  | rows (first second : Planned Row) (rest : List (Planned Row)) :
      Merged ((first :: second :: rest).map .row) (.rows (.under (.row first) (first :: second :: rest)))
  | rowsOfOneDevice (first second : Planned Row) (rest : List (Planned Row)) :
      Merged ((first :: second :: rest).map .row) (.rowsOfOneDevice (.under (.row first) (first :: second :: rest)))

/-- Merging leaves a single command as it is, and makes a group of several. -/
theorem mergeCommands_cases {cs : List Command} {c : Command} (h : mergeCommands cs = .ok c) : cs = [c] ∨ Merged cs c := by
  match cs, h with
  | [], h => cases h
  | [_], h =>
    cases h
    exact .inl rfl
  | .tablet i :: second :: rest, h =>
    simp only [mergeCommands] at h
    cases hg : collectGroup .tablets Command.asTablet? (.tablet i :: second :: rest) with
    | error e =>
      rw [hg] at h
      cases h
    | ok is =>
      rw [hg] at h
      cases h
      rw [collectGroup_eq_ok_iff _ Command.asTablet?_eq_some] at hg
      obtain _ | ⟨first, _ | ⟨next, is⟩⟩ := is
      · cases hg
      · cases hg
      · rw [hg]
        obtain rfl : first = i := by
          simpa using (List.cons.inj hg).1.symm
        exact .inr (.tablets first next is)
  | .row i :: second :: rest, h =>
    simp only [mergeCommands] at h
    cases hg : collectGroup .rows Command.asRow? (.row i :: second :: rest) with
    | error e =>
      rw [hg] at h
      cases h
    | ok is =>
      rw [hg, Except.map] at h
      rw [collectGroup_eq_ok_iff _ Command.asRow?_eq_some] at hg
      obtain _ | ⟨first, _ | ⟨next, is⟩⟩ := is
      · cases hg
      · cases hg
      · rw [hg]
        obtain rfl : first = i := by
          simpa using (List.cons.inj hg).1.symm
        split at h
        · cases h
          exact .inr (.rowsOfOneDevice first next is)
        · cases h
          exact .inr (.rows first next is)
  | .tablets _ :: _ :: _, h => cases h
  | .rows _ :: _ :: _, h => cases h
  | .rowsOfOneDevice _ :: _ :: _, h => cases h

theorem mergeCommands_ok_iff {cs : List Command} : (∃ c, mergeCommands cs = .ok c) ↔ Mergeable cs := by
  constructor
  · rintro ⟨c, h⟩
    obtain rfl | h := mergeCommands_cases h
    · exact .inl rfl
    · refine .inr ?_
      cases h with
      | tablets first second rest => exact ⟨by simp, .inr (by simp [Command.kind])⟩
      | rows first second rest => exact ⟨by simp, .inl (by simp [Command.kind])⟩
      | rowsOfOneDevice first second rest => exact ⟨by simp, .inl (by simp [Command.kind])⟩
  · rintro (h | ⟨hlength, h | h⟩)
    · obtain ⟨c, rfl⟩ := List.length_eq_one_iff.1 h
      exact ⟨c, rfl⟩
    · obtain ⟨is, rfl⟩ := Command.exists_eq_map fun c hc => Command.kind_eq_row.1 (h c hc)
      obtain _ | ⟨first, _ | ⟨second, rest⟩⟩ := is
      · simp at hlength
      · simp at hlength
      · have hg := (collectGroup_eq_ok_iff .rows Command.asRow?_eq_some).2
          (rfl : (first :: second :: rest).map Command.row = _)
        simp only [List.map_cons] at hg
        simp only [List.map_cons, mergeCommands, hg]
        exact ⟨_, rfl⟩
    · obtain ⟨is, rfl⟩ := Command.exists_eq_map fun c hc => Command.kind_eq_tablet.1 (h c hc)
      obtain _ | ⟨first, _ | ⟨second, rest⟩⟩ := is
      · simp at hlength
      · simp at hlength
      · have hg := (collectGroup_eq_ok_iff .tablets Command.asTablet?_eq_some).2
          (rfl : (first :: second :: rest).map Command.tablet = _)
        simp only [List.map_cons] at hg
        simp only [List.map_cons, mergeCommands, hg]
        exact ⟨_, rfl⟩

/-- A merged command has the inserts of the commands that it is merged from, in their order. -/
theorem mergeCommands_entries {cs : List Command} {c : Command} (h : mergeCommands cs = .ok c) :
    c.entries = cs.flatMap Command.entries := by
  obtain rfl | h := mergeCommands_cases h
  · simp
  · cases h <;> simp [Command.entries, Group.under, List.flatMap_map, ← List.map_eq_flatMap]

end SeriesRegion
