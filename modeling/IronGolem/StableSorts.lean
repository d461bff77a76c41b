import Mathlib.Data.List.Count
import Mathlib.Data.List.Sort

/-!
Stable sorting by a key. A list is a ranking of another one when its keys do not
decrease and the elements of each key stand in their old order. There is one
ranking of each list, and the stable sort computes it. Rankings survive the
removal of elements, and sorting again after one more element was appended.
-/

namespace IronGolem.StableSorts

open List

variable {α β : Type*} [LinearOrder β] (key : α → β)

def stableSort (l : List α) : List α := l.insertionSort (fun a b => key a ≤ key b)

theorem stableSort_sorted (l : List α) :
    (stableSort key l).Pairwise (fun a b => key a ≤ key b) := by
  exact pairwise_insertionSort _ l

theorem filter_orderedInsert (a : α) (l : List α) (q : β) :
    (l.orderedInsert (fun a b => key a ≤ key b) a).filter (fun b => decide (key b = q)) =
      (a :: l).filter (fun b => decide (key b = q)) := by
  induction l with
  | nil => rfl
  | cons b l ih =>
    rw [orderedInsert_cons]
    split
    · rfl
    · next hlt =>
      by_cases ha : key a = q
      · have hb : ¬ key b = q := by
          intro hb
          exact hlt (le_of_eq (ha.trans hb.symm))
        rw [filter_cons_of_neg (by simpa using hb), ih]
        simp [ha, hb]
      · rw [filter_cons, ih]
        simp [filter_cons, ha]

/-- Equal keys keep their order. -/
theorem filter_stableSort (l : List α) (q : β) :
    (stableSort key l).filter (fun b => decide (key b = q)) =
      l.filter (fun b => decide (key b = q)) := by
  induction l with
  | nil => rfl
  | cons a l ih =>
    have hinsert := filter_orderedInsert key a (stableSort key l) q
    refine hinsert.trans ?_
    rw [filter_cons, ih, filter_cons]

structure Ranked (l base : List α) : Prop where
  sorted : l.Pairwise (fun a b => key a ≤ key b)
  ties : ∀ q, l.filter (fun b => decide (key b = q)) = base.filter (fun b => decide (key b = q))

variable {key}

theorem Ranked.nil : Ranked key ([] : List α) [] := ⟨List.Pairwise.nil, fun _ => rfl⟩

variable {l base : List α}

/-- Sorting again after an append ranks the longer list. -/
theorem Ranked.append (h : Ranked key l base) (a : α) :
    Ranked key (stableSort key (l ++ [a])) (base ++ [a]) := by
  refine ⟨stableSort_sorted key _, fun q => ?_⟩
  rw [filter_stableSort, filter_append, h.ties q, ← filter_append]

theorem Ranked.filter (h : Ranked key l base) (p : α → Bool) :
    Ranked key (l.filter p) (base.filter p) := by
  refine ⟨h.sorted.sublist List.filter_sublist, fun q => ?_⟩
  rw [List.filter_filter, List.filter_filter]
  have hties := congrArg (List.filter p) (h.ties q)
  rw [List.filter_filter, List.filter_filter] at hties
  simpa only [Bool.and_comm] using hties

theorem Ranked.perm (h : Ranked key l base) : l.Perm base := by
  classical
  rw [perm_iff_count]
  intro a
  have hcount : ∀ m : List α, m.count a = (m.filter (fun b => decide (key b = key a))).count a := by
    intro m
    rw [count_filter (by simp)]
  rw [hcount l, hcount base, h.ties]

end IronGolem.StableSorts
