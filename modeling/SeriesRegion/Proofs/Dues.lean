import Mathlib.Data.List.Basic

/-!
# What is due

Some that are at work in turns may each have something left to do, which a partial function gives.  What has been done and
what is due make up a whole.  This stays so when one of them takes a step: nothing was due of it and nothing is (`Due.same`),
or what was due is done (`Due.settled`), or something is due that is added to the whole (`Due.incurred`).
-/

namespace SeriesRegion.Due

variable {α β : Type} {l : List α} {i : Nat} {a b : α} {x : β} {due? : α → Option β} {done whole : List β}

theorem filterMap_set (h : l[i]? = some a) (b : α) (due? : α → Option β) :
    ((due? a).toList ++ (l.set i b).filterMap due?).Perm ((due? b).toList ++ l.filterMap due?) := by
  obtain ⟨hi, rfl⟩ := List.getElem?_eq_some_iff.1 h
  obtain ⟨before, after, hl, -, hset⟩ := @List.exists_of_set _ i b l hi
  have hcons : ∀ c, (before ++ c :: after).filterMap due? =
      before.filterMap due? ++ ((due? c).toList ++ after.filterMap due?) := by
    intro c
    rw [List.filterMap_append, List.filterMap_cons]
    cases due? c <;> rfl
  have hl' : l.filterMap due? = _ := (congrArg (List.filterMap due?) hl).trans (hcons _)
  rw [hset, hcons, hl']
  refine ((List.perm_append_comm_assoc _ _ _).append_left _).trans ?_
  refine (List.perm_append_comm_assoc _ _ _).trans ?_
  exact (List.perm_append_comm_assoc _ _ _).append_left _

theorem filterMap_set_of_none (h : l[i]? = some a) (ha : due? a = none) (hb : due? b = none) :
    ((l.set i b).filterMap due?).Perm (l.filterMap due?) := by
  have hset := filterMap_set h b due?
  rwa [ha, hb] at hset

theorem same (h : l[i]? = some a) (ha : due? a = none) (hb : due? b = none) (balance : (done ++ l.filterMap due?).Perm whole) :
    (done ++ (l.set i b).filterMap due?).Perm whole :=
  ((filterMap_set_of_none h ha hb).append_left done).trans balance

theorem settled (h : l[i]? = some a) (ha : due? a = some x) (hb : due? b = none)
    (balance : (done ++ l.filterMap due?).Perm whole) : (done ++ [x] ++ (l.set i b).filterMap due?).Perm whole := by
  have hset := filterMap_set h b due?
  rw [ha, hb] at hset
  rw [List.append_assoc]
  exact (hset.append_left done).trans balance

theorem incurred (h : l[i]? = some a) (ha : due? a = none) (hb : due? b = some x)
    (balance : (done ++ l.filterMap due?).Perm whole) : (done ++ (l.set i b).filterMap due?).Perm (whole ++ [x]) := by
  have hset := filterMap_set h b due?
  rw [ha, hb] at hset
  refine (hset.append_left done).trans ?_
  refine (List.perm_append_comm_assoc _ _ _).trans ?_
  exact (balance.append_left [x]).trans List.perm_append_comm

end SeriesRegion.Due
