import Mathlib

/-!
Counts of keys and their ranking. A tally is a map from keys to positive counts
that grows by one key at a time. An exchange sort compares the element at each
position with every later one and exchanges the two when the later one is
larger. The first entries of a sorted tally are the most frequent keys.
-/

namespace IronGolem.RankedTallies

open List

section Tally

variable {κ : Type*} [DecidableEq κ]

def bump (k : κ) : List (κ × ℕ) → List (κ × ℕ)
  | [] => [(k, 1)]
  | (k', n) :: m => if k' = k then (k', n + 1) :: m else (k', n) :: bump k m

def tally (keys : List κ) : List (κ × ℕ) := keys.foldl (fun m k => bump k m) []

variable (k : κ) (m : List (κ × ℕ))

theorem keys_bump :
    (bump k m).map Prod.fst = if k ∈ m.map Prod.fst then m.map Prod.fst
      else m.map Prod.fst ++ [k] := by
  induction m with
  | nil => rfl
  | cons e m ih =>
    obtain ⟨k', n⟩ := e
    by_cases hk : k' = k
    · simp [bump, hk]
    · have hne : ¬ k = k' := fun h => hk h.symm
      simp only [bump, if_neg hk, map_cons, ih, mem_cons, hne, false_or]
      split <;> rfl

theorem nodup_keys_bump (h : (m.map Prod.fst).Nodup) : ((bump k m).map Prod.fst).Nodup := by
  rw [keys_bump]
  split
  · exact h
  · next hk => simpa [nodup_append] using ⟨h, fun a n hmem heq => hk (by
      rw [← heq]; exact mem_map_of_mem hmem)⟩

theorem sum_bump : ((bump k m).map Prod.snd).sum = (m.map Prod.snd).sum + 1 := by
  induction m with
  | nil => rfl
  | cons e m ih =>
    unfold bump
    split
    · simp only [map_cons, sum_cons]
      omega
    · simp only [map_cons, sum_cons, ih]
      omega

theorem mem_bump_of_ne {k' : κ} (n : ℕ) (m : List (κ × ℕ)) (hne : k' ≠ k) :
    (k', n) ∈ bump k m ↔ (k', n) ∈ m := by
  induction m with
  | nil => simp [bump, hne]
  | cons e m ih =>
    obtain ⟨k₁, n₁⟩ := e
    by_cases hk : k₁ = k
    · subst hk
      simp [bump, hne]
    · simp [bump, hk, ih]

variable {m}

theorem mem_bump_self (n : ℕ) (hnodup : (m.map Prod.fst).Nodup) :
    (k, n) ∈ bump k m ↔ (∃ n', (k, n') ∈ m ∧ n = n' + 1) ∨ (k ∉ m.map Prod.fst ∧ n = 1) := by
  induction m with
  | nil => simp [bump]
  | cons e m ih =>
    obtain ⟨k₁, n₁⟩ := e
    have htail : (m.map Prod.fst).Nodup := (nodup_cons.mp hnodup).2
    by_cases hk : k₁ = k
    · subst hk
      have hfresh : ∀ n', (k₁, n') ∉ m := by
        intro n' hmem
        have hkey : k₁ ∈ m.map Prod.fst := mem_map_of_mem hmem
        exact (nodup_cons.mp hnodup).1 hkey
      simp [bump, hfresh]
    · have hne : ¬ k = k₁ := fun h => hk h.symm
      simp [bump, hk, hne, ih htail]

/-- The entries of a map are the counts of the keys seen so far. -/
structure Counts (m : List (κ × ℕ)) (keys : List κ) : Prop where
  nodup : (m.map Prod.fst).Nodup
  mem : ∀ k n, (k, n) ∈ m ↔ k ∈ keys ∧ n = keys.count k
  sum : (m.map Prod.snd).sum = keys.length

variable {keys : List κ}

theorem Counts.bump (h : Counts m keys) (k : κ) : Counts (bump k m) (keys ++ [k]) := by
  refine ⟨nodup_keys_bump k m h.nodup, ?_, ?_⟩
  · intro k' n
    by_cases hk : k' = k
    · subst hk
      have hkey : k' ∈ m.map Prod.fst ↔ k' ∈ keys := by
        constructor
        · intro hmem
          obtain ⟨⟨k₁, n₁⟩, hmem₁, rfl⟩ := mem_map.mp hmem
          exact ((h.mem k₁ n₁).mp hmem₁).1
        · intro hmem
          exact mem_map_of_mem ((h.mem k' _).mpr ⟨hmem, rfl⟩)
      rw [mem_bump_self k' n h.nodup, hkey]
      simp only [h.mem, count_append, count_singleton_self]
      by_cases hin : k' ∈ keys
      · simp [hin]
      · simp [hin, count_eq_zero_of_not_mem hin]
    · have hcount : ([k] : List κ).count k' = 0 := by
        rw [count_eq_zero, mem_singleton]
        exact hk
      rw [mem_bump_of_ne k n m hk, h.mem, count_append, hcount]
      simp [hk]
  · rw [sum_bump, h.sum, length_append, length_singleton]

/-- A tally has each key once, with the number of its occurrences. -/
theorem counts_tally (keys : List κ) : Counts (tally keys) keys := by
  induction keys using reverseRecOn with
  | nil => exact ⟨nodup_nil, by simp [tally], rfl⟩
  | append_singleton keys k ih =>
    unfold tally
    rw [foldl_append]
    exact ih.bump k

theorem Counts.length_eq (h : Counts m keys) : m.length = keys.dedup.length := by
  have hperm : (m.map Prod.fst).Perm keys.dedup := by
    rw [perm_ext_iff_of_nodup h.nodup (nodup_dedup keys)]
    intro k
    rw [mem_dedup, mem_map]
    constructor
    · rintro ⟨⟨k₁, n₁⟩, hmem, rfl⟩
      exact ((h.mem k₁ n₁).mp hmem).1
    · intro hk
      exact ⟨(k, keys.count k), (h.mem k _).mpr ⟨hk, rfl⟩, rfl⟩
  rw [← hperm.length_eq, length_map]

theorem Counts.perm {m' : List (κ × ℕ)} (h : Counts m keys) (hperm : m'.Perm m) : Counts m' keys :=
  ⟨(hperm.map Prod.fst).nodup_iff.mpr h.nodup, fun k n => hperm.mem_iff.trans (h.mem k n),
    (hperm.map Prod.snd).sum_eq.trans h.sum⟩

end Tally

section Exchange

variable {α β : Type*} [LinearOrder β] (key : α → β)

/-- The inner loop: a larger element is exchanged with the one at the position. -/
def sweep (x : α) : List α → α × List α
  | [] => (x, [])
  | y :: ys =>
    if key x < key y then ((sweep y ys).1, x :: (sweep y ys).2)
    else ((sweep x ys).1, y :: (sweep x ys).2)

def rounds : ℕ → List α → List α
  | 0, l => l
  | _ + 1, [] => []
  | n + 1, x :: xs => (sweep key x xs).1 :: rounds n (sweep key x xs).2

def exchangeSort (l : List α) : List α := rounds key l.length l

variable (x : α) (ys : List α)

theorem sweep_perm : ((sweep key x ys).1 :: (sweep key x ys).2).Perm (x :: ys) := by
  induction ys generalizing x with
  | nil => exact List.Perm.refl _
  | cons y ys ih =>
    unfold sweep
    split
    · exact (List.Perm.swap _ _ _).trans ((ih y).cons x)
    · exact (List.Perm.swap _ _ _).trans (((ih x).cons y).trans (List.Perm.swap _ _ _))

theorem le_sweep : key x ≤ key (sweep key x ys).1 := by
  induction ys generalizing x with
  | nil => exact le_refl _
  | cons y ys ih =>
    unfold sweep
    split
    · next hlt => exact hlt.le.trans (ih y)
    · exact ih x

/-- One sweep moves the largest entry to the front. -/
theorem sweep_le : ∀ z ∈ (sweep key x ys).2, key z ≤ key (sweep key x ys).1 := by
  induction ys generalizing x with
  | nil => simp [sweep]
  | cons y ys ih =>
    unfold sweep
    split
    · next hlt =>
      intro z hz
      rcases mem_cons.mp hz with rfl | hz
      · exact hlt.le.trans (le_sweep key y ys)
      · exact ih y z hz
    · next hge =>
      intro z hz
      rcases mem_cons.mp hz with rfl | hz
      · exact (not_lt.mp hge).trans (le_sweep key x ys)
      · exact ih x z hz

theorem rounds_perm (n : ℕ) (l : List α) : (rounds key n l).Perm l := by
  induction n generalizing l with
  | zero => exact List.Perm.refl _
  | succ n ih =>
    cases l with
    | nil => exact List.Perm.refl _
    | cons x xs => exact ((ih _).cons _).trans (sweep_perm key x xs)

variable (l : List α)

theorem exchangeSort_perm : (exchangeSort key l).Perm l := rounds_perm key _ l

/-- As many rounds as entries sort the list. -/
theorem rounds_sorted {n : ℕ} (hn : l.length ≤ n) :
    (rounds key n l).Pairwise (fun a b => key b ≤ key a) := by
  induction n generalizing l with
  | zero =>
    rw [eq_nil_of_length_eq_zero (Nat.le_zero.mp hn)]
    exact List.Pairwise.nil
  | succ n ih =>
    cases l with
    | nil => exact List.Pairwise.nil
    | cons x xs =>
      have hlen : (sweep key x xs).2.length = xs.length := by
        have h := (sweep_perm key x xs).length_eq
        simpa using h
      refine List.Pairwise.cons ?_ (ih _ ?_)
      · intro z hz
        exact sweep_le key x xs z ((rounds_perm key n _).mem_iff.mp hz)
      · rw [hlen]
        simpa using hn

theorem exchangeSort_sorted : (exchangeSort key l).Pairwise (fun a b => key b ≤ key a) :=
  rounds_sorted key l (Nat.le_refl _)

/-- What a cut leaves out ranks no higher than what it keeps. -/
theorem le_of_mem_drop {l : List α} (h : l.Pairwise (fun a b => key b ≤ key a)) {n : ℕ} {a b : α}
    (ha : a ∈ l.take n) (hb : b ∈ l.drop n) : key b ≤ key a := by
  rw [← take_append_drop n l, pairwise_append] at h
  exact h.2.2 a ha b hb

end Exchange

end IronGolem.RankedTallies
