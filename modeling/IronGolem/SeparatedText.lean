import Mathlib.Data.List.DropRight
import Mathlib.Data.String.Basic

/-!
Text read as parts between occurrences of a separator character.
`split` keeps every part, empty ones included, and `joinWith` is its inverse on
lists of parts that do not hold the separator. Joining pieces that may hold the
separator themselves and splitting again lists the parts of the pieces in order.
-/
namespace IronGolem.SeparatedText

open List

variable (c : Char) (s : String)

def split : List String := (s.toList.splitOn c).map String.ofList

def joinWith (l : List String) : String := (String.singleton c).intercalate l

def splitLast : Option (String × String) :=
  let tail := s.toList.rtakeWhile (· != c)
  if s.toList.length ≤ tail.length then none
  else some (String.ofList (s.toList.take (s.toList.length - tail.length - 1)), String.ofList tail)

def trimRight : String :=
  String.ofList (s.toList.rdropWhile (· == c))

variable (c : Char)

@[simp] theorem split_empty : split c "" = [""] := by
  simp [split]

variable (s t : String)

theorem split_append : split c (s ++ String.singleton c ++ t) = split c s ++ split c t := by
  have hcut : (s.toList ++ c :: t.toList).splitOnP (· == c) =
      s.toList.splitOnP (· == c) ++ t.toList.splitOnP (· == c) :=
    splitOnP_append_cons s.toList t.toList (by simp)
  simp only [split, splitOn_eq_splitOnP, String.toList_append, String.toList_singleton,
    append_assoc, singleton_append, ← map_append]
  rw [hcut]

theorem joinWith_cons_cons (l : List String) :
    joinWith c (s :: t :: l) = s ++ String.singleton c ++ joinWith c (t :: l) := by
  simp [joinWith]

theorem joinWith_singleton : joinWith c [s] = s := by
  simp [joinWith]

variable {l : List String}

theorem split_joinWith (hl : l ≠ []) : split c (joinWith c l) = l.flatMap (split c) := by
  induction l with
  | nil => exact absurd rfl hl
  | cons s rest ih =>
    cases rest with
    | nil => simp [joinWith_singleton]
    | cons t rest =>
      rw [joinWith_cons_cons, split_append, ih (by simp), flatMap_cons, flatMap_cons, flatMap_cons]

theorem split_of_notMem (h : c ∉ s.toList) : split c s = [s] := by
  have hone : ([c].intercalate [s.toList]).splitOn c = [s.toList] :=
    splitOn_intercalate c (by simpa using h) (by simp)
  rw [intercalate_singleton] at hone
  simp [split, hone]

theorem split_joinWith_of_notMem (hl : l ≠ [])
    (h : ∀ s ∈ l, c ∉ s.toList) : split c (joinWith c l) = l := by
  rw [split_joinWith c hl]
  conv_rhs => rw [← flatMap_singleton' l]
  exact flatMap_congr fun s hs => split_of_notMem c s (h s hs)

theorem filter_split_trimRight (q : String → Bool) (hq : q "" = false) (s : String) :
    (split c (trimRight c s)).filter q = (split c s).filter q := by
  have hchars : ∀ l : List Char, ((l.rdropWhile (· == c)).splitOn c).filter (q ∘ String.ofList) =
      (l.splitOn c).filter (q ∘ String.ofList) := by
    intro l
    induction l using reverseRecOn with
    | nil => simp
    | append_singleton l a ih =>
      by_cases ha : a = c
      · subst ha
        have hcut : (l ++ [a]).splitOnP (· == a) = l.splitOnP (· == a) ++ [].splitOnP (· == a) :=
          splitOnP_append_cons l [] (by simp)
        rw [rdropWhile_concat_pos _ _ _ (by simp), ih]
        simp [splitOn_eq_splitOnP, hcut, hq]
      · rw [rdropWhile_concat_neg _ _ _ (by simpa using ha)]
  simp only [split, trimRight, String.toList_ofList, filter_map, hchars]

theorem rtakeWhile_of_notMem (l m : List Char) (h : c ∉ m) :
    (l ++ c :: m).rtakeWhile (· != c) = m := by
  induction m using reverseRecOn with
  | nil => simp
  | append_singleton m a ih =>
    rw [mem_append, mem_singleton, not_or] at h
    rw [← cons_append, ← append_assoc,
      rtakeWhile_concat_pos _ _ _ (by simpa using Ne.symm h.2), ih h.1]

theorem splitLast_append (h : c ∉ t.toList) :
    splitLast c (s ++ String.singleton c ++ t) = some (s, t) := by
  have hchars : (s ++ String.singleton c ++ t).toList = s.toList ++ c :: t.toList := by simp
  have hlength : (s.toList ++ c :: t.toList).length = s.toList.length + t.toList.length + 1 := by
    rw [length_append, length_cons]
    omega
  simp only [splitLast, hchars, rtakeWhile_of_notMem c s.toList t.toList h, hlength]
  rw [if_neg (by omega), show s.toList.length + t.toList.length + 1 - t.toList.length - 1 =
    s.toList.length by omega, take_left, String.ofList_toList, String.ofList_toList]

theorem exists_last_split {l : List Char} (h : c ∈ l) :
    ∃ before after, l = before ++ c :: after ∧ c ∉ after := by
  obtain ⟨before, after, heq, hfirst⟩ := eq_append_cons_of_mem (mem_reverse.mpr h)
  refine ⟨after.reverse, before.reverse, ?_, by simpa using hfirst⟩
  have hback := congrArg reverse heq
  simpa using hback

theorem append_of_splitLast {before after : String} (h : splitLast c s = some (before, after)) :
    s = before ++ String.singleton c ++ after := by
  by_cases hc : c ∈ s.toList
  · obtain ⟨l, m, hl, hm⟩ := exists_last_split c hc
    have hs : s = String.ofList l ++ String.singleton c ++ String.ofList m := by
      apply String.toList_injective
      simp [hl]
    rw [hs, splitLast_append c _ _ (by simpa using hm), Option.some.injEq, Prod.mk.injEq] at h
    rw [hs, h.1, h.2]
  · have hall : s.toList.rtakeWhile (· != c) = s.toList := by
      rw [rtakeWhile_eq_self_iff]
      intro d hd
      have hne : d ≠ c := ne_of_mem_of_not_mem hd hc
      simpa using hne
    simp [splitLast, hall] at h

theorem joinWith_split : joinWith c (split c s) = s := by
  apply String.toList_injective
  simp [joinWith, split]

theorem split_ne_nil : split c s ≠ [] := by
  simp [split, splitOn_ne_nil]

theorem notMem_of_mem_split {part : String} (h : part ∈ split c s) : c ∉ part.toList := by
  induction hn : s.toList.length using Nat.strong_induction_on generalizing s with
  | h n ih =>
    by_cases hc : c ∈ s.toList
    · obtain ⟨before, after, heq, hbefore⟩ := eq_append_cons_of_mem hc
      have hs : s = String.ofList before ++ String.singleton c ++ String.ofList after := by
        apply String.toList_injective
        simp [heq]
      rw [hs, split_append, split_of_notMem c _ (by simpa using hbefore), singleton_append,
        mem_cons] at h
      rcases h with rfl | h
      · simpa using hbefore
      · refine ih after.length ?_ (String.ofList after) h (by simp)
        rw [← hn, heq, length_append, length_cons]
        omega
    · rw [split_of_notMem c s hc, mem_singleton] at h
      rw [h]
      exact hc

end IronGolem.SeparatedText
